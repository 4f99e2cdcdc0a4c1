import Mathlib.Logic.Function.Basic
import Brickred.Buffer.DynamicBuffer
import Brickred.Timer.TimerHeap

/-!
# `TcpService` (`tcp_service.h`, `tcp_service.cc`)

Sockets and connections are heap objects. The service finds them by socket id in
its maps, but a handler holds their addresses while it calls the user back, and
the user may close any socket before the callback returns. So a state of the
service carries the handlers that wait for a callback (`frames`), each with the
addresses it goes on with, and a step that reads a deleted object is a fault.

The answers of the kernel, the instants read from the clock and the order in
which `connections_` is enumerated are arguments of the steps: what is proved of
every run is proved for all of them. `epoll_ctl` may refuse to add a descriptor;
later updates of its mask are taken to succeed, so that a device gets an event
only while it has the callback for it.
-/

namespace Brickred

/-- A descriptor: an `int` that is not -1. -/
abbrev Descriptor := Fin (2 ^ 31)

abbrev SocketId := Int

/-- The read callbacks the service installs. -/
inductive ReadCallback
  | onListenSocketRead
  | onSocketRead
  deriving DecidableEq, Repr

/-- The write callbacks the service installs. -/
inductive WriteCallback
  | onAsyncConnectSocketWrite
  | onSocketWrite
  deriving DecidableEq, Repr

/-- The callbacks of the timers: those of `addSocketTimer`, and one of an
application, which shares the timers of the `IOService`. -/
inductive TimerCallback
  | onListenSocketResumeRead
  | onAsyncConnectTimeout
  | onSendMessageError
  | user
  deriving DecidableEq, Repr

/-- `TcpSocket`. Its error callback is `onSocketError` from the start to the
end, and it is attached as long as it exists. -/
structure TcpSocket where
  fd : Descriptor
  id : SocketId
  readCb : Option ReadCallback
  writeCb : Option WriteCallback

/-- `TcpConnection::Status` -/
inductive TcpConnection.Status
  | none
  | connecting
  | connected
  | peerClosed
  | pendingError
  deriving DecidableEq, Repr

/-- `SendCompleteCallback`: one of the user, or the one `sendMessageThenClose`
passes. -/
inductive SendCompleteCallback (C : Type)
  | user (cb : C)
  | sendCompleteClose
  deriving DecidableEq

/-- `TcpConnection` -/
structure TcpConnection (C : Type) where
  socket : Nat
  status : TcpConnection.Status
  errorCode : Int
  readBuffer : DynamicBuffer
  writeBuffer : DynamicBuffer
  sendCompleteCb : Option (SendCompleteCallback C)

/-- `TcpConnection::setError` -/
def TcpConnection.setError {C : Type} (connection : TcpConnection C) (errorCode : Int) :
    TcpConnection C :=
  { connection with status := .pendingError, errorCode }

/-! ## The configuration -/

/-- The members of `TcpService::Impl` that only its setters write. Of the user's
callbacks it matters whether they are set. -/
structure TcpConfig where
  connReadBufferInitSize : Nat
  connReadBufferExpandSize : Nat
  connReadBufferMaxSize : Nat
  connWriteBufferInitSize : Nat
  connWriteBufferExpandSize : Nat
  connWriteBufferMaxSize : Nat
  acceptPauseTimeWhenExceedOpenFileLimit : Int
  newConnCb : Bool
  recvMessageCb : Bool
  peerCloseCb : Bool
  errorCb : Bool

/-- A call of one of the setters. -/
inductive TcpSetting
  | recvBufferInitSize (size : Nat)
  | recvBufferExpandSize (size : Nat)
  | recvBufferMaxSize (size : Nat)
  | sendBufferInitSize (size : Nat)
  | sendBufferExpandSize (size : Nat)
  | sendBufferMaxSize (size : Nat)
  | acceptPauseTimeWhenExceedOpenFileLimit (ms : Int)
  | newConnectionCallback (set : Bool)
  | recvMessageCallback (set : Bool)
  | peerCloseCallback (set : Bool)
  | errorCallback (set : Bool)

namespace TcpConfig

/-- A size of zero is ignored. -/
def newSize (old size : Nat) : Nat := if size = 0 then old else size

/-- The setters of `TcpService::Impl` -/
def set (c : TcpConfig) : TcpSetting → TcpConfig
  | .recvBufferInitSize size =>
    { c with connReadBufferInitSize := newSize c.connReadBufferInitSize size }
  | .recvBufferExpandSize size =>
    { c with connReadBufferExpandSize := newSize c.connReadBufferExpandSize size }
  | .recvBufferMaxSize size =>
    { c with connReadBufferMaxSize := newSize c.connReadBufferMaxSize size }
  | .sendBufferInitSize size =>
    { c with connWriteBufferInitSize := newSize c.connWriteBufferInitSize size }
  | .sendBufferExpandSize size =>
    { c with connWriteBufferExpandSize := newSize c.connWriteBufferExpandSize size }
  | .sendBufferMaxSize size =>
    { c with connWriteBufferMaxSize := newSize c.connWriteBufferMaxSize size }
  | .acceptPauseTimeWhenExceedOpenFileLimit ms =>
    if ms < 0 then c else { c with acceptPauseTimeWhenExceedOpenFileLimit := ms }
  | .newConnectionCallback set => { c with newConnCb := set }
  | .recvMessageCallback set => { c with recvMessageCb := set }
  | .peerCloseCallback set => { c with peerCloseCb := set }
  | .errorCallback set => { c with errorCb := set }

/-- `TcpService::TcpService`: the initial values, then the setters with their
default arguments. -/
def init : TcpConfig :=
  [.recvBufferInitSize 1024, .recvBufferExpandSize 1024, .recvBufferMaxSize 0,
    .sendBufferInitSize 1024, .sendBufferExpandSize 1024, .sendBufferMaxSize 0,
    .acceptPauseTimeWhenExceedOpenFileLimit 0].foldl set
    { connReadBufferInitSize := 0, connReadBufferExpandSize := 0, connReadBufferMaxSize := 0,
      connWriteBufferInitSize := 0, connWriteBufferExpandSize := 0, connWriteBufferMaxSize := 0,
      acceptPauseTimeWhenExceedOpenFileLimit := 0,
      newConnCb := false, recvMessageCb := false, peerCloseCb := false, errorCb := false }

end TcpConfig

/-! ## The service -/

/-- What a handler does when the callback it has invoked returns. -/
inductive TcpFrame
  /-- Go on with the accept loop. -/
  | onListenSocketRead (listenSocket : Nat)
  /-- Go on behind the receive callback, the peer having closed. -/
  | onSocketRead (connection : Nat) (socketId : SocketId)
  /-- Return without a look at any object. -/
  | finish
  deriving DecidableEq

/-- `TcpService::Impl`, with the memory its sockets and connections live in, the
timers of its `IOService` and the handlers that wait for a callback, the
innermost first. -/
structure TcpService (C : Type) where
  config : TcpConfig
  socketIdAllocator : Nat
  sockets : SocketId → Option Nat
  connections : SocketId → Option Nat
  contexts : SocketId → Option Nat
  socketToTimerMap : SocketId → Option Int
  timerToSocketMap : Int → Option SocketId
  timerHeap : TimerHeap TimerCallback
  socketObjects : ObjectHeap TcpSocket
  connectionObjects : ObjectHeap (TcpConnection C)
  frames : List TcpFrame

/-- What ends a run: a use of a deleted socket or connection, a copy outside its
storage or an allocation that throws in the event loop, a use of a deleted
timer. -/
inductive TcpFault
  | dangling
  | buffer
  | timer
  deriving DecidableEq, Repr

/-- What is seen of a step, in order. Outputs about a connection name the
connection object beside the socket id, which can be in use again later. -/
inductive TcpOutput (C : Type)
  /-- The kernel has taken bytes of a connection. -/
  | written (connection : Nat) (bytes : List UInt8)
  /-- A `sendMessage` that returns true, when it is decided. -/
  | accepted (connection : Nat) (message : List UInt8) (sendCompleteCb : Option (SendCompleteCallback C))
  /-- A `sendMessage` that returns false; `errorCode` is that of an error it
  reports. -/
  | refused (connection : Nat) (errorCode : Option Int)
  /-- A `sendMessage` left by an exception of the write buffer. -/
  | thrown (connection : Nat)
  /-- A send-completion callback is called. -/
  | completed (connection : Nat) (socketId : SocketId) (sendCompleteCb : SendCompleteCallback C)
  | newConnection (listenId : SocketId) (connection : Nat) (socketId : SocketId)
  | recvMessage (connection : Nat) (socketId : SocketId)
  | peerClose (connection : Nat) (socketId : SocketId)
  | error (connection : Nat) (socketId : SocketId) (errorCode : Int)
  /-- The result of `listen`, `shareListen` or `connect`. -/
  | returnedId (socketId : SocketId)
  /-- The result of `asyncConnect` and what it stores in `*complete`. -/
  | returnedAsync (socketId : SocketId) (complete : Option Bool)
  /-- The result of a `sendMessage` on an id without a connection, or of `setContext`. -/
  | returnedBool (result : Bool)
  /-- A timer of the application expires. -/
  | timer (timerId : Int)
  deriving DecidableEq

/-! ## Answers of the kernel -/

/-- A descriptor the kernel has opened, and whether it could be added to the
`epoll` set. -/
structure OpenAnswer where
  fd : Descriptor
  attached : Bool

/-- How the non-blocking `connect` of `asyncConnect` ends. -/
inductive ConnectAnswer
  | completed (socket : OpenAnswer)
  | inProgress (socket : OpenAnswer)
  | failed

/-- How one `acceptNonblock` ends, when not with `EAGAIN`. -/
inductive AcceptAnswer
  | accepted (socket : OpenAnswer)
  /-- `ECONNABORTED` -/
  | aborted
  /-- `EMFILE` or `ENFILE`, at some instant -/
  | outOfDescriptors (now : Timestamp)
  | failed

/-- How one `recv` ends. -/
inductive RecvResult
  | data (bytes : List UInt8)
  | again
  | error (errno : Int)

/-- `FIONREAD` (-1 if it fails) and the `recv` that follows. -/
structure RecvAnswer where
  available : Int
  result : RecvResult

/-- How one `send` ends. -/
inductive SendResult
  | accepted (n : Nat)
  | again
  | error (errno : Int)

/-- A `send`, the instant a timer would be started at, and whether there is memory for a
write buffer that has to grow. -/
structure SendAnswer where
  result : SendResult
  now : Timestamp
  allocated : Bool

/-- The most bytes one system call moves. -/
def maxRwCount : Nat := 0x7ffff000

/-- How many of `size` bytes a `send` that did not fail has taken. -/
def SendResult.writeSize (size : Nat) : SendResult → Nat
  | .accepted n => min n (min size maxRwCount)
  | _ => 0

def ENOBUFS : Int := 105
def ETIMEDOUT : Int := 110

def orFault {α : Type} (fault : TcpFault) : Option α → Except TcpFault α
  | some a => .ok a
  | none => .error fault

namespace TcpService

variable {C : Type}

/-- `TcpService::Impl::Impl` -/
def init (C : Type) : TcpService C where
  config := .init
  socketIdAllocator := 0
  sockets _ := none
  connections _ := none
  contexts _ := none
  socketToTimerMap _ := none
  timerToSocketMap _ := none
  timerHeap := .init
  socketObjects := .empty
  connectionObjects := .empty
  frames := []

variable (s : TcpService C)

/-! ## Objects -/

/-- `*socket` -/
def socketAt (socket : Nat) : Except TcpFault TcpSocket :=
  orFault .dangling (s.socketObjects.cell socket)

/-- `*connection` -/
def connectionAt (connection : Nat) : Except TcpFault (TcpConnection C) :=
  orFault .dangling (s.connectionObjects.cell connection)

/-- Write members of a socket. -/
def setSocket (socket : Nat) (f : TcpSocket → TcpSocket) : TcpService C :=
  { s with socketObjects := s.socketObjects.update socket f }

/-- Write members of a connection. -/
def setConnection (connection : Nat) (f : TcpConnection C → TcpConnection C) : TcpService C :=
  { s with connectionObjects := s.connectionObjects.update connection f }

/-- Hand control to the user. -/
def invoke (frame : TcpFrame) : TcpService C := { s with frames := frame :: s.frames }

/-- `SocketIdAllocator::getId` -/
def getId (fd : Descriptor) : TcpService C × SocketId :=
  let value := if s.socketIdAllocator = 2 ^ 31 - 1 then 1 else s.socketIdAllocator + 1
  ({ s with socketIdAllocator := value }, value * 2 ^ 32 + fd)

/-- `sockets_.insert` of a new socket. -/
def insertSocket (socket : TcpSocket) : TcpService C :=
  { s with
    sockets := Function.update s.sockets socket.id (some s.socketObjects.next)
    socketObjects := (s.socketObjects.alloc socket).1 }

/-- `connections_.insert` of a new connection. -/
def insertConnection (socketId : SocketId) (connection : TcpConnection C) : TcpService C :=
  { s with
    connections := Function.update s.connections socketId (some s.connectionObjects.next)
    connectionObjects := (s.connectionObjects.alloc connection).1 }

/-- A connection for the socket that is about to be made. -/
def newConnection (status : TcpConnection.Status) : Except TcpFault (TcpConnection C) := do
  let readBuffer ← orFault .buffer (DynamicBuffer.construct s.config.connReadBufferInitSize
    s.config.connReadBufferExpandSize)
  let writeBuffer ← orFault .buffer (DynamicBuffer.construct s.config.connWriteBufferInitSize
    s.config.connWriteBufferExpandSize)
  .ok { socket := s.socketObjects.next, status, errorCode := 0, readBuffer, writeBuffer,
        sendCompleteCb := none }

/-! ## Timers -/

/-- `TcpService::Impl::addSocketTimer` -/
def addSocketTimer (socketId : SocketId) (timeoutMs : Int) (timerCb : TimerCallback)
    (now : Timestamp) : Except TcpFault (TcpService C) := do
  let (timerHeap, timerId) ← orFault .timer (s.timerHeap.addTimer now timeoutMs timerCb 1)
  .ok { s with
    timerHeap
    socketToTimerMap := Function.update s.socketToTimerMap socketId (some timerId)
    timerToSocketMap := Function.update s.timerToSocketMap timerId (some socketId) }

/-- `TcpService::Impl::removeSocketTimer` -/
def removeSocketTimer (socketId : SocketId) : Except TcpFault (TcpService C) :=
  match s.socketToTimerMap socketId with
  | none => .ok s
  | some timerId => do
    let timerHeap ← orFault .timer (s.timerHeap.removeTimer timerId)
    .ok { s with
      timerHeap
      socketToTimerMap := Function.update s.socketToTimerMap socketId none
      timerToSocketMap := Function.update s.timerToSocketMap timerId none }

/-- The start of the three timer handlers: the socket a timer is for, and the two
timer maps without it. -/
def takeTimer (timerId : Int) : Option (TcpService C × SocketId) :=
  (s.timerToSocketMap timerId).map fun socketId =>
    ({ s with
      timerToSocketMap := Function.update s.timerToSocketMap timerId none
      socketToTimerMap := Function.update s.socketToTimerMap socketId none }, socketId)

/-! ## Opening sockets -/

/-- `TcpService::Impl::buildListenSocket`. A socket that does not get into the map
is deleted again by its `UniquePtr`; all that is left of it is the id it used. -/
def buildListenSocket (socket : OpenAnswer) : TcpService C × SocketId :=
  let (s, socketId) := s.getId socket.fd
  if !socket.attached then
    (s, -1)
  else if (s.sockets socketId).isSome then
    (s, -1)
  else
    (s.insertSocket
      { fd := socket.fd, id := socketId, readCb := some .onListenSocketRead, writeCb := none },
      socketId)

/-- `TcpService::Impl::buildConnectedSocket` -/
def buildConnectedSocket (socket : OpenAnswer) : Except TcpFault (TcpService C × SocketId) := do
  let (s, socketId) := s.getId socket.fd
  if !socket.attached then
    .ok (s, -1)
  else
    let connection ← s.newConnection .connected
    if (s.sockets socketId).isSome || (s.connections socketId).isSome then
      .ok (s, -1)
    else
      let s := s.insertSocket
        { fd := socket.fd, id := socketId, readCb := some .onSocketRead, writeCb := none }
      .ok (s.insertConnection socketId connection, socketId)

/-- `TcpService::Impl::buildAsyncConnectSocket` -/
def buildAsyncConnectSocket (socket : OpenAnswer) (timeoutMs : Int) (now : Timestamp) :
    Except TcpFault (TcpService C × SocketId) := do
  let (s, socketId) := s.getId socket.fd
  if !socket.attached then
    .ok (s, -1)
  else
    let connection ← s.newConnection .connecting
    if (s.sockets socketId).isSome || (s.connections socketId).isSome then
      .ok (s, -1)
    else
      -- add timeout timer
      let s ← if timeoutMs > 0 then
          s.addSocketTimer socketId timeoutMs .onAsyncConnectTimeout now
        else
          .ok s
      let s := s.insertSocket
        { fd := socket.fd, id := socketId, readCb := none
          writeCb := some .onAsyncConnectSocketWrite }
      .ok (s.insertConnection socketId connection, socketId)

/-- `TcpService::Impl::listen` and `TcpService::Impl::shareListen`, from the socket
they open. -/
def listen : Option OpenAnswer → TcpService C × SocketId
  | none => (s, -1)
  | some socket => s.buildListenSocket socket

/-- `TcpService::Impl::connect` -/
def connect : Option OpenAnswer → Except TcpFault (TcpService C × SocketId)
  | none => .ok (s, -1)
  | some socket => s.buildConnectedSocket socket

/-- `TcpService::Impl::asyncConnect`, with what it stores in `*complete`. -/
def asyncConnect (answer : ConnectAnswer) (timeoutMs : Int) (now : Timestamp) :
    Except TcpFault (TcpService C × SocketId × Option Bool) :=
  match answer with
  | .completed socket => do
    -- connection is completed immediately
    let (s, socketId) ← s.buildConnectedSocket socket
    .ok (s, socketId, if socketId = -1 then none else some true)
  | .inProgress socket => do
    -- connection cannot be completed immediately
    let (s, socketId) ← s.buildAsyncConnectSocket socket timeoutMs now
    .ok (s, socketId, if socketId = -1 then none else some false)
  | .failed => .ok (s, -1, none)

/-! ## Closing sockets -/

/-- `connections_.erase` of a connection that is deleted. -/
def eraseConnection (socketId : SocketId) : Except TcpFault (TcpService C) :=
  match s.connections socketId with
  | none => .ok s
  | some connection => do
    let connectionObjects ← orFault .dangling (s.connectionObjects.free connection)
    .ok { s with connectionObjects, connections := Function.update s.connections socketId none }

/-- `sockets_.erase` of a socket that is deleted. -/
def eraseSocket (socketId : SocketId) : Except TcpFault (TcpService C) :=
  match s.sockets socketId with
  | none => .ok s
  | some socket => do
    let socketObjects ← orFault .dangling (s.socketObjects.free socket)
    .ok { s with socketObjects, sockets := Function.update s.sockets socketId none }

/-- `TcpService::Impl::closeSocket` -/
def closeSocket (socketId : SocketId) : Except TcpFault (TcpService C) := do
  let s ← s.removeSocketTimer socketId
  let s ← s.eraseConnection socketId
  let s ← s.eraseSocket socketId
  .ok { s with contexts := Function.update s.contexts socketId none }

/-! ## Contexts -/

/-- `TcpService::Impl::getContext` -/
def getContext (socketId : SocketId) : Option Nat := s.contexts socketId

/-- `TcpService::Impl::setContext` -/
def setContext (socketId : SocketId) (context : Nat) : TcpService C × Bool :=
  if (s.sockets socketId).isNone then
    (s, false)
  else
    ({ s with contexts := Function.update s.contexts socketId (some context) }, true)

/-! ## Sending -/

/-- `TcpService::Impl::isConnected` -/
def isConnected (socketId : SocketId) : Except TcpFault Bool :=
  match s.connections socketId with
  | none => .ok false
  | some connection => do
    let conn ← s.connectionAt connection
    .ok (conn.status = .connected)

/-- Call a send-completion callback, if there is one. That of
`sendMessageThenClose` closes the socket. -/
def sendComplete (connection : Nat) (socketId : SocketId) :
    Option (SendCompleteCallback C) → Except TcpFault (TcpService C × List (TcpOutput C))
  | none => .ok (s, [])
  | some (.user cb) => .ok (s.invoke .finish, [.completed connection socketId (.user cb)])
  | some .sendCompleteClose => do
    let s ← s.closeSocket socketId
    .ok (s, [.completed connection socketId .sendCompleteClose])

/-- The check of `conn_write_buffer_max_size_` for `size` more bytes. -/
def writeOverflow (writeBuffer : DynamicBuffer) (size : Nat) : Bool :=
  s.config.connWriteBufferMaxSize > 0 ∧
    size + writeBuffer.readableBytes > s.config.connWriteBufferMaxSize

/-- How `sendMessage` fails: the error is kept in the connection, and a timer will
report it. -/
def sendError (connection : Nat) (socketId : SocketId) (errorCode : Int) (now : Timestamp) :
    Except TcpFault (TcpService C) :=
  (s.setConnection connection (·.setError errorCode)).addSocketTimer socketId 0
    .onSendMessageError now

end TcpService

/-- Growing a buffer throws: the new capacity, as it is computed, is more than a vector can
have, or there is no memory for it. -/
def DynamicBuffer.growthThrows (b : DynamicBuffer) (size : Nat) (allocated : Bool) : Bool :=
  b.writableBytes < size ∧ b.discardableBytes + b.writableBytes < size ∧
    (2 ^ 63 ≤ b.grownCapacity size % 2 ^ 64 ∨ allocated = false)

namespace TcpService

variable {C : Type} (s : TcpService C)

/-- Append to the write buffer and set the send-completion callback: `none` when
the buffer throws. -/
def queueMessage (connection : Nat) (conn : TcpConnection C) (data : List UInt8)
    (sendCompleteCb : Option (SendCompleteCallback C)) (allocated : Bool) :
    Except TcpFault (Option (TcpService C)) :=
  if conn.writeBuffer.growthThrows data.length allocated then
    .ok none
  else do
    let writeBuffer ← orFault .buffer (conn.writeBuffer.writeBytes data)
    .ok (some (s.setConnection connection ({ · with writeBuffer, sendCompleteCb })))

/-- `TcpService::Impl::sendMessage` on a connection. -/
def sendMessageOn (connection : Nat) (buffer : List UInt8)
    (sendCompleteCb : Option (SendCompleteCallback C)) (answer : SendAnswer) :
    Except TcpFault (TcpService C × List (TcpOutput C)) := do
  let conn ← s.connectionAt connection
  if conn.status ≠ .connected then
    .ok (s, [.refused connection none])
  else
    let socket ← s.socketAt conn.socket
    -- check write buffer is empty
    if conn.writeBuffer.readableBytes = 0 then
      match answer.result with
      | .error errno =>
        let s ← s.sendError connection socket.id errno answer.now
        .ok (s, [.refused connection (some errno)])
      | result =>
        let writeSize := result.writeSize buffer.length
        let written := .written connection (buffer.take writeSize)
        let remain := buffer.drop writeSize
        if remain.length > 0 then
          -- check buffer overflow
          if s.writeOverflow conn.writeBuffer remain.length then
            let s ← s.sendError connection socket.id ENOBUFS answer.now
            .ok (s, [written, .refused connection (some ENOBUFS)])
          else
            match ← s.queueMessage connection conn remain sendCompleteCb answer.allocated with
            | none => .ok (s, [written, .thrown connection])
            | some s =>
              let s := s.setSocket conn.socket ({ · with writeCb := some .onSocketWrite })
              .ok (s, [written, .accepted connection buffer sendCompleteCb])
        else
          let (s, outs) ← s.sendComplete connection socket.id sendCompleteCb
          .ok (s, written :: .accepted connection buffer sendCompleteCb :: outs)
    -- check buffer overflow
    else if s.writeOverflow conn.writeBuffer buffer.length then
      let s ← s.sendError connection socket.id ENOBUFS answer.now
      .ok (s, [.refused connection (some ENOBUFS)])
    else
      match ← s.queueMessage connection conn buffer sendCompleteCb answer.allocated with
      | none => .ok (s, [.thrown connection])
      | some s => .ok (s, [.accepted connection buffer sendCompleteCb])

/-- `TcpService::Impl::sendMessage` -/
def sendMessage (socketId : SocketId) (buffer : List UInt8)
    (sendCompleteCb : Option (SendCompleteCallback C)) (answer : SendAnswer) :
    Except TcpFault (TcpService C × List (TcpOutput C)) :=
  match s.connections socketId with
  | none => .ok (s, [.returnedBool false])
  | some connection => s.sendMessageOn connection buffer sendCompleteCb answer

/-- `TcpService::Impl::sendMessageThenClose` -/
def sendMessageThenClose (socketId : SocketId) (buffer : List UInt8) (answer : SendAnswer) :
    Except TcpFault (TcpService C × List (TcpOutput C)) :=
  s.sendMessage socketId buffer (some .sendCompleteClose) answer

/-- A `sendMessage` was left by an exception. -/
def thrown (outs : List (TcpOutput C)) : Bool :=
  outs.any fun | .thrown _ => true | _ => false

/-- `TcpService::Impl::broadcastMessage`, for the enumeration of `connections_` and
the answers of `send`. -/
def broadcastMessage (buffer : List UInt8) :
    TcpService C → List (SocketId × SendAnswer) →
      Except TcpFault (TcpService C × List (TcpOutput C))
  | s, [] => .ok (s, [])
  | s, (socketId, answer) :: rest =>
    match s.connections socketId with
    | none => broadcastMessage buffer s rest
    | some connection => do
      let (s, outs) ← s.sendMessageOn connection buffer none answer
      if thrown outs then
        .ok (s, outs)
      else
        let (s, outs') ← broadcastMessage buffer s rest
        .ok (s, outs ++ outs')

/-! ## Handlers -/

/-- Set an error and report it: the end of several handlers. -/
def setErrorAndReport (connection : Nat) (socketId : SocketId) (errorCode : Int) :
    TcpService C × List (TcpOutput C) :=
  let s := s.setConnection connection (·.setError errorCode)
  if s.config.errorCb then
    (s.invoke .finish, [.error connection socketId errorCode])
  else
    (s, [])

/-- The loop of `TcpService::Impl::onListenSocketRead`, up to the point where it
ends or invokes a callback. After the last answer `accept` says `EAGAIN`. -/
def onListenSocketRead (listenSocket : Nat) :
    TcpService C → List AcceptAnswer → Except TcpFault (TcpService C × List (TcpOutput C))
  | s, [] => do
    let _ ← s.socketAt listenSocket
    .ok (s, [])
  | s, answer :: answers => do
    let listen ← s.socketAt listenSocket
    match answer with
    | .aborted => onListenSocketRead listenSocket s answers
    | .outOfDescriptors now =>
      if s.config.acceptPauseTimeWhenExceedOpenFileLimit > 0 then
        -- disable listen for a while to prevent cpu busy wait
        let s := s.setSocket listenSocket ({ · with readCb := none })
        let s ← s.addSocketTimer listen.id s.config.acceptPauseTimeWhenExceedOpenFileLimit
          .onListenSocketResumeRead now
        .ok (s, [])
      else
        .ok (s, [])
    | .failed => .ok (s, [])
    | .accepted socket =>
      let connection := s.connectionObjects.next
      let (s, socketId) ← s.buildConnectedSocket socket
      if socketId = -1 then
        .ok (s, [])
      else if s.config.newConnCb then
        .ok (s.invoke (.onListenSocketRead listenSocket),
          [.newConnection listen.id connection socketId])
      else
        onListenSocketRead listenSocket s answers

/-- `TcpService::Impl::onListenSocketResumeRead` -/
def onListenSocketResumeRead (timerId : Int) :
    Except TcpFault (TcpService C × List (TcpOutput C)) :=
  match s.takeTimer timerId with
  | none => .ok (s, [])
  | some (s, socketId) =>
    match s.sockets socketId with
    | none => .ok (s, [])
    | some socket => do
      let _ ← s.socketAt socket
      .ok (s.setSocket socket ({ · with readCb := some .onListenSocketRead }), [])

/-- `TcpService::Impl::onAsyncConnectSocketWrite` for the value of `SO_ERROR`. -/
def onAsyncConnectSocketWrite (socket : Nat) (socketError : Int) :
    Except TcpFault (TcpService C × List (TcpOutput C)) := do
  let sock ← s.socketAt socket
  -- remove timeout timer
  let s ← s.removeSocketTimer sock.id
  match s.connections sock.id with
  | none => .ok (s, [])
  | some connection =>
    let _ ← s.connectionAt connection
    if socketError ≠ 0 then
      .ok (s.setErrorAndReport connection sock.id socketError)
    else
      let s := s.setSocket socket ({ · with readCb := some .onSocketRead, writeCb := none })
      let s := s.setConnection connection ({ · with status := .connected })
      if s.config.newConnCb then
        .ok (s.invoke .finish, [.newConnection sock.id connection sock.id])
      else
        .ok (s, [])

/-- `TcpService::Impl::onAsyncConnectTimeout` -/
def onAsyncConnectTimeout (timerId : Int) : Except TcpFault (TcpService C × List (TcpOutput C)) :=
  match s.takeTimer timerId with
  | none => .ok (s, [])
  | some (s, socketId) =>
    match s.sockets socketId, s.connections socketId with
    | some socket, some connection => do
      let sock ← s.socketAt socket
      let _ ← s.connectionAt connection
      .ok (s.setErrorAndReport connection sock.id ETIMEDOUT)
    | _, _ => .ok (s, [])

/-- `TcpService::Impl::onSendMessageError` -/
def onSendMessageError (timerId : Int) : Except TcpFault (TcpService C × List (TcpOutput C)) :=
  match s.takeTimer timerId with
  | none => .ok (s, [])
  | some (s, socketId) =>
    match s.sockets socketId, s.connections socketId with
    | some socket, some connection => do
      let sock ← s.socketAt socket
      let conn ← s.connectionAt connection
      if s.config.errorCb then
        .ok (s.invoke .finish, [.error connection sock.id conn.errorCode])
      else
        .ok (s, [])
    | _, _ => .ok (s, [])

end TcpService

/-- How the receive loop ends. -/
inductive RecvEnd
  | again
  | peerClose
  | error (errno : Int)

/-- The receive loop of `TcpService::Impl::onSocketRead` on the read buffer, for a
limit on its size: the buffer, whether data has arrived, and how the loop ends.
After the last answer there is nothing to read. -/
def recvLoop (maxSize : Nat) :
    DynamicBuffer → Bool → List RecvAnswer → Except TcpFault (DynamicBuffer × Bool × RecvEnd)
  | readBuffer, dataArrive, [] => do
    -- check buffer overflow
    if maxSize > 0 ∧ 1 + readBuffer.readableBytes > maxSize then
      .ok (readBuffer, dataArrive, .peerClose)
    else
      let readBuffer ← orFault .buffer (readBuffer.reserveWritableBytes 1)
      .ok (readBuffer, dataArrive, .again)
  | readBuffer, dataArrive, answer :: answers => do
    let bytesToRead := (max 1 answer.available).toNat
    -- check buffer overflow
    if maxSize > 0 ∧ bytesToRead + readBuffer.readableBytes > maxSize then
      .ok (readBuffer, dataArrive, .peerClose)
    else
      -- reserve bytes for write
      let readBuffer ← orFault .buffer (readBuffer.reserveWritableBytes bytesToRead)
      match answer.result with
      | .data bytes =>
        let bytes := bytes.take bytesToRead
        if bytes.length > 0 then
          let readBuffer ← orFault .buffer (readBuffer.copyIn bytes)
          recvLoop maxSize (readBuffer.write bytes.length) true answers
        else
          .ok (readBuffer, dataArrive, .peerClose)
      | .again => .ok (readBuffer, dataArrive, .again)
      | .error errno => .ok (readBuffer, dataArrive, .error errno)

namespace TcpService

variable {C : Type} (s : TcpService C)

/-- The end of `TcpService::Impl::onSocketRead` when the peer has closed. -/
def onPeerClose (connection : Nat) (socketId : SocketId) :
    Except TcpFault (TcpService C × List (TcpOutput C)) := do
  let _ ← s.connectionAt connection
  let s := s.setConnection connection ({ · with status := .peerClosed })
  if s.config.peerCloseCb then
    .ok (s.invoke .finish, [.peerClose connection socketId])
  else
    .ok (s, [])

/-- What follows the receive callback when the peer has closed. -/
def afterRecvMessage (connection : Nat) (socketId : SocketId) :
    Except TcpFault (TcpService C × List (TcpOutput C)) :=
  -- check recv message callback closed socket or not
  if (s.connections socketId).isNone then
    .ok (s, [])
  else
    s.onPeerClose connection socketId

/-- `TcpService::Impl::onSocketRead`, up to the first callback. -/
def onSocketRead (socket : Nat) (answers : List RecvAnswer) :
    Except TcpFault (TcpService C × List (TcpOutput C)) := do
  let sock ← s.socketAt socket
  match s.connections sock.id with
  | none => .ok (s, [])
  | some connection =>
    let conn ← s.connectionAt connection
    let (readBuffer, dataArrive, recvEnd) ←
      recvLoop s.config.connReadBufferMaxSize conn.readBuffer false answers
    let s := s.setConnection connection ({ · with readBuffer })
    match recvEnd with
    | .error errno => .ok (s.setErrorAndReport connection sock.id errno)
    | .again =>
      if dataArrive && s.config.recvMessageCb then
        .ok (s.invoke .finish, [.recvMessage connection sock.id])
      else
        .ok (s, [])
    | .peerClose =>
      if dataArrive then
        if s.config.recvMessageCb then
          .ok (s.invoke (.onSocketRead connection sock.id), [.recvMessage connection sock.id])
        else
          s.afterRecvMessage connection sock.id
      else
        s.onPeerClose connection sock.id

/-- `TcpService::Impl::onSocketWrite` -/
def onSocketWrite (socket : Nat) (result : SendResult) :
    Except TcpFault (TcpService C × List (TcpOutput C)) := do
  let sock ← s.socketAt socket
  match s.connections sock.id with
  | none => .ok (s, [])
  | some connection =>
    let conn ← s.connectionAt connection
    match result with
    | .error errno => .ok (s.setErrorAndReport connection sock.id errno)
    | .again => .ok (s, [])
    | .accepted n =>
      let writeSize := SendResult.writeSize conn.writeBuffer.readableBytes (.accepted n)
      let written := .written connection (conn.writeBuffer.readable.take writeSize)
      let writeBuffer := conn.writeBuffer.read writeSize
      let s := s.setConnection connection ({ · with writeBuffer })
      if writeBuffer.readableBytes = 0 then
        let s := s.setSocket socket ({ · with writeCb := none })
        let s := s.setConnection connection ({ · with sendCompleteCb := none })
        let (s, outs) ← s.sendComplete connection sock.id conn.sendCompleteCb
        .ok (s, written :: outs)
      else
        .ok (s, [written])

/-- `TcpService::Impl::onSocketError` for the value of `SO_ERROR`, or of `errno`
where that is zero. -/
def onSocketError (socket : Nat) (socketError : Int) :
    Except TcpFault (TcpService C × List (TcpOutput C)) := do
  let sock ← s.socketAt socket
  match s.connections sock.id with
  | none => .ok (s, [])
  | some connection =>
    let _ ← s.connectionAt connection
    .ok (s.setErrorAndReport connection sock.id socketError)

end TcpService

/-! ## Steps -/

/-- A call of the user, the return of the innermost callback, or an event, with
the answers of the kernel that it needs. -/
inductive TcpOp (C : Type)
  | set (setting : TcpSetting)
  | listen (socket : Option OpenAnswer)
  | connect (socket : Option OpenAnswer)
  | asyncConnect (answer : ConnectAnswer) (timeoutMs : Int) (now : Timestamp)
  | sendMessage (socketId : SocketId) (buffer : List UInt8) (sendCompleteCb : Option C)
      (answer : SendAnswer)
  | sendMessageThenClose (socketId : SocketId) (buffer : List UInt8) (answer : SendAnswer)
  | broadcastMessage (buffer : List UInt8) (answers : List (SocketId × SendAnswer))
  | closeSocket (socketId : SocketId)
  | setContext (socketId : SocketId) (context : Nat)
  /-- Take bytes out of the read buffer of a connection. -/
  | consume (socketId : SocketId) (size : Nat)
  | startTimer (timeoutMs : Int) (callTimes : Int) (now : Timestamp)
  | stopTimer (timerId : Int)
  | callbackReturn (accepts : List AcceptAnswer)
  | readable (socket : Nat) (accepts : List AcceptAnswer) (recvs : List RecvAnswer)
  | writable (socket : Nat) (socketError : Int) (result : SendResult)
  | error (socket : Nat) (socketError : Int)
  /-- The next timer that is due at an instant. -/
  | timeout (now : Timestamp)

namespace TcpService

variable {C : Type} (s : TcpService C)

/-- The user takes bytes out of a read buffer. -/
def consume (socketId : SocketId) (size : Nat) : TcpService C :=
  match s.connections socketId with
  | none => s
  | some connection =>
    s.setConnection connection fun conn => { conn with readBuffer := conn.readBuffer.read size }

/-- The callback of a pending timer. -/
def timerCallback (timerId : Int) : Option TimerCallback :=
  ((s.timerHeap.timers timerId).bind s.timerHeap.objects.cell).map Timer.timerCb

/-- The application stops a timer it has started. -/
def stopTimer (timerId : Int) : Except TcpFault (TcpService C) :=
  if s.timerCallback timerId = some .user then do
    let timerHeap ← orFault .timer (s.timerHeap.removeTimer timerId)
    .ok { s with timerHeap }
  else
    .ok s

/-- A read event for a device that waits for one. -/
def readable (socket : Nat) (accepts : List AcceptAnswer) (recvs : List RecvAnswer) :
    Except TcpFault (TcpService C × List (TcpOutput C)) :=
  match (s.socketObjects.cell socket).bind TcpSocket.readCb with
  | none => .ok (s, [])
  | some .onListenSocketRead => onListenSocketRead socket s accepts
  | some .onSocketRead => s.onSocketRead socket recvs

/-- A write event for a device that waits for one. -/
def writable (socket : Nat) (socketError : Int) (result : SendResult) :
    Except TcpFault (TcpService C × List (TcpOutput C)) :=
  match (s.socketObjects.cell socket).bind TcpSocket.writeCb with
  | none => .ok (s, [])
  | some .onAsyncConnectSocketWrite => s.onAsyncConnectSocketWrite socket socketError
  | some .onSocketWrite => s.onSocketWrite socket result

/-- An error event for a device. -/
def error (socket : Nat) (socketError : Int) :
    Except TcpFault (TcpService C × List (TcpOutput C)) :=
  match s.socketObjects.cell socket with
  | none => .ok (s, [])
  | some _ => s.onSocketError socket socketError

/-- The earliest timer expires if it is due. -/
def timeout (now : Timestamp) : Except TcpFault (TcpService C × List (TcpOutput C)) := do
  let (timerHeap, firing) ← orFault .timer (s.timerHeap.checkTimeout now)
  let s := { s with timerHeap }
  match firing with
  | none => .ok (s, [])
  | some ⟨timerId, timerCb, _⟩ =>
    match timerCb with
    | .onListenSocketResumeRead => s.onListenSocketResumeRead timerId
    | .onAsyncConnectTimeout => s.onAsyncConnectTimeout timerId
    | .onSendMessageError => s.onSendMessageError timerId
    | .user => .ok (s.invoke .finish, [.timer timerId])

/-- Go on with a handler whose callback has returned. -/
def resume (accepts : List AcceptAnswer) :
    TcpFrame → Except TcpFault (TcpService C × List (TcpOutput C))
  | .onListenSocketRead listenSocket => onListenSocketRead listenSocket s accepts
  | .onSocketRead connection socketId => s.afterRecvMessage connection socketId
  | .finish => .ok (s, [])

/-- The loop of the `IOService` hands out events only when no handler is
running. -/
def onEvent (handle : Except TcpFault (TcpService C × List (TcpOutput C))) :
    Except TcpFault (TcpService C × List (TcpOutput C)) :=
  match s.frames with
  | [] => handle
  | _ :: _ => .ok (s, [])

def step : TcpOp C → Except TcpFault (TcpService C × List (TcpOutput C))
  | .set setting => .ok ({ s with config := s.config.set setting }, [])
  | .listen socket =>
    let (s, socketId) := s.listen socket
    .ok (s, [.returnedId socketId])
  | .connect socket => do
    let (s, socketId) ← s.connect socket
    .ok (s, [.returnedId socketId])
  | .asyncConnect answer timeoutMs now => do
    let (s, socketId, complete) ← s.asyncConnect answer timeoutMs now
    .ok (s, [.returnedAsync socketId complete])
  | .sendMessage socketId buffer sendCompleteCb answer =>
    s.sendMessage socketId buffer (sendCompleteCb.map .user) answer
  | .sendMessageThenClose socketId buffer answer => s.sendMessageThenClose socketId buffer answer
  | .broadcastMessage buffer answers => broadcastMessage buffer s answers
  | .closeSocket socketId => do
    let s ← s.closeSocket socketId
    .ok (s, [])
  | .setContext socketId context =>
    let (s, result) := s.setContext socketId context
    .ok (s, [.returnedBool result])
  | .consume socketId size => .ok (s.consume socketId size, [])
  | .startTimer timeoutMs callTimes now => do
    let (timerHeap, _) ← orFault .timer (s.timerHeap.addTimer now timeoutMs .user callTimes)
    .ok ({ s with timerHeap }, [])
  | .stopTimer timerId => do
    let s ← s.stopTimer timerId
    .ok (s, [])
  | .callbackReturn accepts =>
    match s.frames with
    | [] => .ok (s, [])
    | frame :: frames => resume { s with frames } accepts frame
  | .readable socket accepts recvs => s.onEvent (s.readable socket accepts recvs)
  | .writable socket socketError result => s.onEvent (s.writable socket socketError result)
  | .error socket socketError => s.onEvent (s.error socket socketError)
  | .timeout now => s.onEvent (s.timeout now)

/-- A step with its label and what is seen of it. -/
def Steps (s : TcpService C) (move : TcpOp C × List (TcpOutput C)) (s' : TcpService C) : Prop :=
  s.step move.1 = .ok (s', move.2)

end TcpService

end Brickred
