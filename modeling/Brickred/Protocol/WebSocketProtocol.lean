import Brickred.Buffer.Queue
import Brickred.Codec.Base64
import Brickred.Codec.Sha1
import Brickred.Protocol.HttpProtocol

/-!
# `WebSocketProtocol` (`web_socket_protocol.cc`)

Buffers are their readable bytes. Every function that invokes the output callback
does so once, and what it does afterwards depends on nothing it has computed
before, so that a call is either over or in the callback with one of six ways to go
on. The callback may call any function of the object.

`none` is a read or write outside its array, a `size_t` that wraps where the code
takes for granted that it does not, or a handshake too long for a buffer.
-/

namespace Brickred

/-- `WebSocketProtocol::Status` -/
inductive WebSocketStatus where
  | detached
  | waitingHandshakeRequest
  | waitingHandshakeResponse
  | connected
  | finished
  | closed
  | pendingError
deriving DecidableEq, Repr

/-- `WebSocketProtocol::RetCode` -/
inductive WebSocketRetCode where
  | error
  | waitingMoreData
  | connectionEstablished
  | messageReady
  | peerClosed
  | pingFrame
  | pongFrame
deriving DecidableEq, Repr

/-- `random` are the values that `random_generator_` is going to give; `outputCb` says
whether a callback is installed; `lastOpCode` is `none` for -1. -/
structure WebSocketProtocol where
  status : WebSocketStatus
  outputCb : Bool
  random : Nat → UInt8
  http : HttpProtocol
  handshakeHeaders : HeaderMap
  controlMessage : Bytes
  message : Bytes
  isClient : Bool
  closeFrameSent : Bool
  lastOpCode : Option Nat
  retCode : WebSocketRetCode
  messageSizeMax : Nat

namespace WebSocketProtocol

/-- What the output callback is given: the text of a handshake, or a frame, with its
opcode. -/
inductive Output where
  | handshake (text : Bytes)
  | frame (opcode : Nat) (text : Bytes)
deriving DecidableEq, Repr

def Output.text : Output → Bytes
  | .handshake text => text
  | .frame _ text => text

/-- What a function returns. -/
inductive Result where
  | void
  | bool (b : Bool)
  | code (c : WebSocketRetCode)
  | message (m : Option Bytes)
deriving DecidableEq, Repr

/-- Which call of the output callback a function is waiting for. -/
inductive Pending where
  /-- `sendMessage`, `sendCloseFrame`, `sendPingFrame` -/
  | sent
  /-- `startAsClient` -/
  | started
  /-- `readHandshakeRequest`, after the error response -/
  | refused
  /-- `readHandshakeRequest`, after the success response -/
  | accepted
  /-- `readFrame`, after the reply to a close frame -/
  | closed
  /-- `readFrame`, after the reply to a ping frame -/
  | ponged
deriving DecidableEq, Repr

/-- A call that is over, or that is in the output callback. -/
inductive Call where
  | returned (r : Result) (p : WebSocketProtocol)
  | output (o : Output) (k : Pending) (p : WebSocketProtocol)

/-- `WebSocketProtocol::WebSocketProtocol`, with the output callback of
`setOutputCallback` and a generator that will not be used. -/
def construct (outputCb : Bool) : WebSocketProtocol where
  status := .detached
  outputCb
  random := fun _ => 0
  http := .construct
  handshakeHeaders := .empty
  controlMessage := []
  message := []
  isClient := false
  closeFrameSent := false
  lastOpCode := none
  retCode := .error
  messageSizeMax := 1024 * 1024

variable (p : WebSocketProtocol)

/-- What is left of a function when the output callback returns, down to the end of
`recvMessage`. -/
def resume : Pending → Result × WebSocketProtocol
  | .sent => (.void, p)
  | .started => (.bool true, p)
  | .refused => (.code .error, { p with status := .pendingError })
  | .accepted =>
    (.code .connectionEstablished,
      { p with status := .connected, retCode := .connectionEstablished })
  | .closed =>
    (.code .peerClosed, { p with status := .closed, controlMessage := [], message := [] })
  | .ponged => (.code .pingFrame, { p with controlMessage := [], retCode := .pingFrame })

/-- The function goes on at once. -/
def goOn (k : Pending) : Call := .returned (p.resume k).1 (p.resume k).2

/-- `if (output_cb_) { output_cb_(..); }` -/
def emit (o : Output) (k : Pending) : Call := if p.outputCb then .output o k p else p.goOn k

def setMessageMaxSize (size : Nat) : WebSocketProtocol :=
  if size = 0 then p else { p with messageSizeMax := size }

/-- `nextInt(256)`, `n` times. -/
def draw (n : Nat) : Bytes × WebSocketProtocol :=
  ((List.range n).map p.random, { p with random := fun i => p.random (i + n) })

/-- The loop that masks bytes, and unmasks them. -/
def mask (key data : Bytes) : Bytes := data.mapIdx fun i c => c ^^^ key.getD (i % 4) 0

/-- Masking, or unmasking, if there is a key. -/
def maskWith (key : Option Bytes) (data : Bytes) : Bytes :=
  match key with
  | some key => mask key data
  | none => data

/-! ## Frames that are sent -/

/-- `WebSocketProtocol::Impl::sendMessage` -/
def sendMessage (data : Bytes) : Call :=
  if p.status ≠ .connected then p.goOn .sent
  else if p.closeFrameSent then p.goOn .sent
  else
    let flag : UInt8 := if p.isClient then 0x80 else 0
    let size := data.length
    let length : Bytes :=
      if size < 126 then [flag ||| UInt8.ofNat size]
      else if size ≤ 65535 then (flag ||| 126) :: DynamicBuffer.encodeInt 2 false size
      else (flag ||| 127) :: DynamicBuffer.encodeInt 8 false size
    if p.isClient then
      let (key, p) := p.draw 4
      p.emit (.frame 2 (0x82 :: length ++ key ++ mask key data)) .sent
    else
      p.emit (.frame 2 (0x82 :: length ++ data)) .sent

/-- `WebSocketProtocol::Impl::sendCloseFrame`, called by the user or by `readFrame`. -/
def sendCloseFrame (k : Pending) : Call :=
  if p.status ≠ .connected then p.goOn k
  else if p.closeFrameSent then p.goOn k
  else
    let frame : Bytes := if p.isClient then [0x88, 0x80, 0, 0, 0, 0] else [0x88, 0]
    emit { p with closeFrameSent := true } (.frame 8 frame) k

/-- `WebSocketProtocol::Impl::sendPingFrame` -/
def sendPingFrame : Call :=
  if p.status ≠ .connected then p.goOn .sent
  else if p.closeFrameSent then p.goOn .sent
  else
    let frame : Bytes := if p.isClient then [0x89, 0x80, 0, 0, 0, 0] else [0x89, 0]
    p.emit (.frame 9 frame) .sent

/-- `WebSocketProtocol::Impl::sendPongFrame`. The frame is built in an array of 256
bytes by a client, of 128 bytes by a server. -/
def sendPongFrame : Option Call :=
  if p.status ≠ .connected then some (p.goOn .ponged)
  else if p.closeFrameSent then some (p.goOn .ponged)
  else if p.outputCb then
    let payload := p.controlMessage
    if p.isClient then
      if payload.length + 6 > 256 then none
      else
        let (key, p) := p.draw 4
        some (.output
          (.frame 10 (0x8a :: (UInt8.ofNat payload.length ||| 0x80) :: key ++ mask key payload))
          .ponged p)
    else
      if payload.length + 2 > 128 then none
      else some (.output (.frame 10 (0x8a :: UInt8.ofNat payload.length :: payload)) .ponged p)
  else
    some (p.goOn .ponged)

/-! ## Frames that are received -/

/-- The `int` a status handler returns: 0, -1, 1 or 2. -/
inductive Handled where
  | more
  | failed
  | done
  | event
deriving DecidableEq, Repr

/-- What a status handler has come to, with the bytes it leaves. -/
inductive Handler where
  | ret (h : Handled) (p : WebSocketProtocol) (rest : Bytes)
  | call (c : Call) (rest : Bytes)

/-- What looking at a part of a frame yields: `readFrame` returns 0 or -1, or goes on. -/
inductive Part (α : Type) where
  | more
  | failed
  | ready (a : α)
deriving DecidableEq, Repr

def Part.andThen {α β : Type} (r : Option (Part α)) (f : α → Option (Part β)) : Option (Part β) :=
  match r with
  | none => none
  | some .more => some .more
  | some .failed => some .failed
  | some (.ready a) => f a

/-- A difference of `size_t` values that must not wrap. -/
def checkedSub (a b : Nat) : Option Nat := if b ≤ a then some (a - b) else none

/-- `payload_length`, with `p - b` and `left_bytes` behind it. -/
def readLength (buffer : Bytes) (payloadLength : Nat) : Option (Part (Nat × Nat × Nat)) := do
  let left ← checkedSub buffer.length 2
  if payloadLength = 126 then
    match ← Queue.peekInt buffer 2 2 false with
    | none => some .more
    | some payloadLength =>
      if payloadLength < 126 then some .failed
      else some (.ready (payloadLength, 4, ← checkedSub left 2))
  else if payloadLength = 127 then
    match ← Queue.peekInt buffer 8 2 false with
    | none => some .more
    | some payloadLength =>
      if payloadLength ≤ 0xffff then some .failed
      else if payloadLength >>> 63 ≠ 0 then some .failed
      else some (.ready (payloadLength, 10, ← checkedSub left 8))
  else
    some (.ready (payloadLength, 2, left))

/-- `mask_key`, with `p - b` and `left_bytes` behind it. -/
def readMaskKey (buffer : Bytes) (masked : Bool) (pos left : Nat) :
    Option (Part (Option Bytes × Nat × Nat)) :=
  if masked then
    if p.isClient then some .failed
    else if left < 4 then some .more
    else do
      let key ← slice buffer pos 4
      some (.ready (some key, pos + 4, ← checkedSub left 4))
  else
    if p.isClient = false then some .failed
    else some (.ready (none, pos, left))

/-- The payload, unmasked, with `p - b` behind it. -/
def readPayload (buffer : Bytes) (key : Option Bytes) (payloadLength pos left : Nat) :
    Option (Part (Bytes × Nat)) :=
  if payloadLength > 0 then
    if left < payloadLength then some .more
    else do
      let data ← slice buffer pos payloadLength
      let _ ← checkedSub left payloadLength
      some (.ready (maskWith key data, pos + payloadLength))
  else
    some (.ready ([], pos))

/-- What `readFrame` takes from the buffer. -/
structure Incoming where
  fin : Bool
  opcode : Nat
  payload : Bytes
  size : Nat
deriving DecidableEq, Repr

/-- The part of `readFrame` that looks at the buffer. The sum of the sizes of
`message_` and of the payload, both below `2 ^ 63`, does not wrap. -/
def parseFrame (buffer : Bytes) : Option (Part Incoming) :=
  if buffer.length < 2 then some .more
  else do
    let b₀ ← buffer[0]?
    let b₁ ← buffer[1]?
    -- check RSV1, RSV2, RSV3
    if b₀ &&& 0x70 ≠ 0 then some .failed
    else
      let fin : Bool := b₀ &&& 0x80 ≠ 0
      let opcode := (b₀ &&& 0x0f).toNat
      let isControl : Bool := opcode ≥ 8
      if isControl ∧ fin = false then some .failed
      else
        let payloadLength := (b₁ &&& 0x7f).toNat
        if isControl ∧ payloadLength ≥ 126 then some .failed
        else
          Part.andThen (readLength buffer payloadLength) fun (payloadLength, pos, left) =>
            if isControl = false ∧ p.message.length + payloadLength > p.messageSizeMax then
              some .failed
            else
              Part.andThen (p.readMaskKey buffer (b₁ &&& 0x80 ≠ 0) pos left) fun (key, pos, left) =>
                Part.andThen (readPayload buffer key payloadLength pos left) fun (payload, size) =>
                  some (.ready ⟨fin, opcode, payload, size⟩)

/-- The part of `readFrame` that processes a frame whose payload has been copied. -/
def processFrame (fin : Bool) (opcode : Nat) (rest : Bytes) : Option Handler :=
  if fin = false then
    if opcode ≠ 0 then
      -- opcode must in first frag
      if p.lastOpCode ≠ none then some (.ret .failed p rest)
      else some (.ret .done { p with lastOpCode := some opcode } rest)
    else
      -- 0x0 should in follow frag
      if p.lastOpCode = none then some (.ret .failed p rest)
      else some (.ret .done p rest)
  else
    let frame : Option (Nat × WebSocketProtocol) :=
      if opcode = 0 then p.lastOpCode.map fun opcode => (opcode, { p with lastOpCode := none })
      else if opcode < 8 ∧ p.lastOpCode ≠ none then none
      else some (opcode, p)
    match frame with
    | none => some (.ret .failed p rest)
    | some (opcode, p) =>
      if opcode = 1 ∨ opcode = 2 then some (.ret .done { p with status := .finished } rest)
      else if opcode = 8 then some (.call (p.sendCloseFrame .closed) rest)
      else if opcode = 9 then (sendPongFrame p).map fun c => .call c rest
      else if opcode = 10 then
        some (.ret .event { p with controlMessage := [], retCode := .pongFrame } rest)
      else some (.ret .failed p rest)

/-- `WebSocketProtocol::Impl::readFrame` -/
def readFrame (buffer : Bytes) : Option Handler :=
  match p.parseFrame buffer with
  | none => none
  | some .more => some (.ret .more p buffer)
  | some .failed => some (.ret .failed p buffer)
  | some (.ready f) =>
    processFrame
      (if f.opcode ≥ 8 then { p with controlMessage := p.controlMessage ++ f.payload }
        else { p with message := p.message ++ f.payload })
      f.fin f.opcode (buffer.drop f.size)

/-- `WebSocketProtocol::Impl::retrieveMessage` -/
def retrieveMessage : Option Bytes × WebSocketProtocol :=
  if p.status ≠ .finished then (none, p)
  else (some p.message, { p with message := [], status := .connected })

/-! ## Handshake -/

/-- `WebSocketProtocol::Impl::setHandshakeHeader` -/
def setHandshakeHeader (key value : Bytes) : WebSocketProtocol :=
  { p with handshakeHeaders := p.handshakeHeaders.insert key value }

/-- `http_protocol_.sendMessage`, and what follows it. -/
def sendHandshake (message : HttpMessage) (k : Pending) : Option Call :=
  if p.outputCb then
    (HttpProtocol.sendMessage message).map fun text => .output (.handshake text) k p
  else
    some (p.goOn k)

/-- `WebSocketProtocol::Impl::startAsClient`, with the address as `getIp` and `getPort`
give it. -/
def startAsClient (ip : Bytes) (port : Nat) (random : Nat → UInt8) (requestUri : Bytes) :
    Option Call :=
  if p.status ≠ .detached then some (.returned (.bool false) p)
  else
    let p := { p with status := .waitingHandshakeResponse, random, isClient := true }
    let request : HttpMessage := ⟨.request .get requestUri, .http11, .empty, []⟩
    let request := request.setHeader (bytes "Upgrade") (bytes "websocket")
    let request := request.setHeader (bytes "Connection") (bytes "Upgrade")
    let request := request.setHeader (bytes "Sec-WebSocket-Version") (bytes "13")
    let p :=
      if (p.handshakeHeaders.find (bytes "Sec-WebSocket-Key")).isNone then
        let (key, p) := p.draw 16
        p.setHandshakeHeader (bytes "Sec-WebSocket-Key") (Codec.base64Encode key)
      else p
    let p :=
      if (p.handshakeHeaders.find (bytes "Host")).isNone then
        p.setHandshakeHeader (bytes "Host") (ip ++ bytes ":" ++ StringUtil.toString port)
      else p
    p.sendHandshake (request.setHeaders p.handshakeHeaders.entries) .started

/-- `WebSocketProtocol::Impl::startAsServer` -/
def startAsServer : Bool × WebSocketProtocol :=
  if p.status ≠ .detached then (false, p)
  else (true, { p with status := .waitingHandshakeRequest, isClient := false })

/-- `WebSocketProtocol::Impl::checkHandshakeRequestValid` -/
def checkHandshakeRequestValid (request : HttpMessage) : Bool :=
  request.hasHeader (bytes "Host") &&
    request.headerContain (bytes "Upgrade") (bytes "websocket") &&
    request.headerContain (bytes "Connection") (bytes "Upgrade") &&
    (request.getHeader (bytes "Sec-WebSocket-Key")).length == 24 &&
    request.headerEqual (bytes "Sec-WebSocket-Version") (bytes "13")

/-- The value of `Sec-WebSocket-Accept` for a key. -/
def acceptValue (key : Bytes) : Bytes :=
  Codec.base64Encode (Codec.sha1Binary (key ++ bytes "258EAFA5-E914-47DA-95CA-C5AB0DC85B11"))

/-- `WebSocketProtocol::Impl::sendHandshakeErrorResponse` -/
def sendHandshakeErrorResponse : Call :=
  p.emit (.handshake (bytes "HTTP/1.1 400 Bad Request\r\n\r\n")) .refused

/-- The response of `sendHandshakeSuccessResponse`. `date` is what `setDate` formats. -/
def successResponse (date : Bytes) (request : HttpMessage) : HttpMessage :=
  let response : HttpMessage :=
    ⟨.response 101 (bytes "Switching Protocols"), .http11, .empty, []⟩
  let response := response.setHeader (bytes "Upgrade") (bytes "websocket")
  let response := response.setHeader (bytes "Connection") (bytes "Upgrade")
  let response := response.setHeader (bytes "Sec-WebSocket-Accept")
    (acceptValue (request.getHeader (bytes "Sec-WebSocket-Key")))
  let response := response.setHeaders p.handshakeHeaders.entries
  if response.hasHeader (bytes "Date") then response.setHeader (bytes "Date") date else response

/-- `WebSocketProtocol::Impl::readHandshakeRequest` -/
def readHandshakeRequest (date : Bytes) (buffer : Bytes) : Option Handler :=
  let (ret, http, rest) := p.http.recvMessage buffer
  let p := { p with http }
  match ret with
  | .waitingMoreData => some (.ret .more p rest)
  | .error => some (.call p.sendHandshakeErrorResponse rest)
  | .messageReady =>
    match http.retrieveRequest with
    | (none, http) => some (.call (sendHandshakeErrorResponse { p with http }) rest)
    | (some request, http) =>
      let p := { p with http }
      if checkHandshakeRequestValid request = false then
        some (.call p.sendHandshakeErrorResponse rest)
      else
        (p.sendHandshake (p.successResponse date request) .accepted).map fun c => .call c rest

/-- `WebSocketProtocol::Impl::checkHandshakeResponseValid` -/
def checkHandshakeResponseValid (response : HttpMessage) (secKey : Bytes) : Bool :=
  (match response.startLine with
    | .response statusCode _ => statusCode == 101
    | .request _ _ => false) &&
    response.headerContain (bytes "Upgrade") (bytes "websocket") &&
    response.headerContain (bytes "Connection") (bytes "Upgrade") &&
    response.headerEqual (bytes "Sec-WebSocket-Accept") (acceptValue secKey)

/-- `WebSocketProtocol::Impl::readHandshakeResponse`. `handshake_headers_[..]` makes an
entry if there is none. -/
def readHandshakeResponse (buffer : Bytes) : Handler :=
  let (ret, http, rest) := p.http.recvMessage buffer
  let p := { p with http }
  match ret with
  | .waitingMoreData => .ret .more p rest
  | .error => .ret .failed p rest
  | .messageReady =>
    match http.retrieveResponse with
    | (none, http) => .ret .failed { p with http } rest
    | (some response, http) =>
      let p := { p with http }
      let p :=
        if (p.handshakeHeaders.find (bytes "Sec-WebSocket-Key")).isNone then
          p.setHandshakeHeader (bytes "Sec-WebSocket-Key") []
        else p
      if checkHandshakeResponseValid response
          ((p.handshakeHeaders.find (bytes "Sec-WebSocket-Key")).getD []) = false then
        .ret .failed p rest
      else
        .ret .event { p with status := .connected, retCode := .connectionEstablished } rest

/-! ## Receiving -/

/-- The handler of a status; `some none` is where the table has a null pointer. -/
def handle (date : Bytes) (buffer : Bytes) : Option (Option Handler) :=
  match p.status with
  | .waitingHandshakeRequest => (p.readHandshakeRequest date buffer).map some
  | .waitingHandshakeResponse => some (some (p.readHandshakeResponse buffer))
  | .connected => (p.readFrame buffer).map some
  | .detached | .finished | .closed | .pendingError => some none

/-- The loop of `WebSocketProtocol::Impl::recvMessage`. -/
def recvLoop (date : Bytes) : Nat → WebSocketProtocol → Bytes → Option (Call × Bytes)
  | 0, p, buffer => some (.returned (.code .error) p, buffer)
  | fuel + 1, p, buffer => do
    match ← p.handle date buffer with
    | none => some (.returned (.code .error) p, buffer)
    | some (.call c rest) => some (c, rest)
    | some (.ret .more p rest) => some (.returned (.code .waitingMoreData) p, rest)
    | some (.ret .failed p rest) =>
      some (.returned (.code .error) { p with status := .pendingError }, rest)
    | some (.ret .event p rest) => some (.returned (.code p.retCode) p, rest)
    | some (.ret .done p rest) =>
      if p.status = .finished then some (.returned (.code .messageReady) p, rest)
      else if p.status = .closed then some (.returned (.code .peerClosed) p, rest)
      else recvLoop date fuel p rest

/-- `WebSocketProtocol::Impl::recvMessage`. A round that is followed by another takes
two bytes or more. -/
def recvMessage (date : Bytes) (buffer : Bytes) : Option (Call × Bytes) :=
  recvLoop date (buffer.length + 1) p buffer

end WebSocketProtocol

end Brickred
