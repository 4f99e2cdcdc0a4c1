import Mathlib.Logic.Function.Basic
import Brickred.Net.SocketAddress

/-!
# Descriptors of devices (`io_device.cc`, `tcp_socket.cc`, `udp_socket.cc`, `self_pipe.cc`)

The devices of a program, the descriptor table of the kernel, and the `epoll` sets of the
services as far as they say which device is registered with which descriptor. What the
kernel returns is part of a call. It hands out only numbers that are free: an answer that
is not is a failure here.

The callbacks, the masks of the events and what is sent and received are left out. When
the last descriptor of a file is closed the kernel drops what is registered for it; here
nothing is dropped then, and it will be shown that there is nothing to drop.
-/

namespace Brickred

open Function (update)

/-- What a descriptor is of. -/
inductive FileType
  | stream
  | datagram
  | pipe
  deriving DecidableEq

/-- The class of a device. -/
inductive DeviceKind
  | ioDevice
  | tcpSocket
  | udpSocket
  | selfPipe
  deriving DecidableEq

/-- The descriptors and the service of an `IODevice`; `none` for -1 and for `nullptr`. Only a
`SelfPipe` has a second descriptor. -/
structure Device where
  kind : DeviceKind
  ioService : Option Nat
  fd : Option Nat
  fd1 : Option Nat

/-- A member that holds a descriptor. -/
inductive Member
  | fd
  | fd1
  deriving DecidableEq

namespace Device

/-- The constructors of the devices. -/
def construct (kind : DeviceKind) : Device := ⟨kind, none, none, none⟩

def get (d : Device) : Member → Option Nat
  | .fd => d.fd
  | .fd1 => d.fd1

def set (d : Device) : Member → Option Nat → Device
  | .fd, fd => { d with fd }
  | .fd1, fd1 => { d with fd1 }

end Device

/-- The devices and the kernel. Nothing depends on `dropped`: it is the descriptors that were
in a member of a device that has been overwritten, or has gone, without closing them. -/
structure Devices where
  device : Nat → Option Device
  /-- The descriptor table. -/
  files : Nat → Option FileType
  /-- The `epoll` set of each service: the device that is registered with a descriptor. -/
  registered : Nat → Nat → Option Nat
  /-- `::close` has been called with a number that is not a descriptor. -/
  badClose : Bool
  dropped : Nat → Bool

/-- What the kernel answers to the calls that open a descriptor and prepare it; `none` and
`false` are failures. -/
structure OpenAnswers where
  fd : Option Nat
  setCloseOnExec : Bool
  setReuseAddr : Bool
  setTcpNoDelay : Bool
  connect : Bool
  bind : Bool
  listen : Bool
  setNonblock : Bool

namespace Devices

def init : Devices where
  device _ := none
  files _ := none
  registered _ _ := none
  badClose := false
  dropped _ := false

/-! ## The kernel -/

def setFile (s : Devices) (fd : Nat) (file : Option FileType) : Devices :=
  { s with files := update s.files fd file }

/-- A call that returns a new descriptor. -/
def newFile (s : Devices) (type : FileType) : Option Nat → Devices × Option Nat
  | none => (s, none)
  | some fd => if s.files fd = none then (s.setFile fd (some type), some fd) else (s, none)

/-- `::close` -/
def closeFile (s : Devices) (fd : Nat) : Devices :=
  if s.files fd = none then { s with badClose := true } else s.setFile fd none

/-- `epoll_ctl` with `EPOLL_CTL_ADD`, which may fail for other reasons too. -/
def epollAdd (s : Devices) (service o : Nat) (fd : Option Nat) (ok : Bool) : Devices × Bool :=
  match fd with
  | none => (s, false)
  | some fd =>
    if ok ∧ s.files fd ≠ none ∧ s.registered service fd = none then
      let set := update (s.registered service) fd (some o)
      ({ s with registered := update s.registered service set }, true)
    else
      (s, false)

/-- `epoll_ctl` with `EPOLL_CTL_DEL`; nothing is there for -1. -/
def epollDel (s : Devices) (service : Nat) : Option Nat → Devices
  | none => s
  | some fd =>
    { s with registered := update s.registered service (update (s.registered service) fd none) }

/-! ## Devices -/

def put (s : Devices) (o : Nat) (d : Device) : Devices :=
  { s with device := update s.device o (some d) }

/-- What has been in a member that is overwritten or destroyed. -/
def drop (s : Devices) : Option Nat → Devices
  | none => s
  | some fd => { s with dropped := update s.dropped fd true }

/-- `fd_ = fd` as in `IODevice::setDescriptor`, or `fd1_ = fd`. -/
def setDescriptor (s : Devices) (o : Nat) (member : Member) (fd : Nat) : Devices :=
  match s.device o with
  | none => s
  | some d => (s.drop (d.get member)).put o (d.set member (some fd))

/-- `IODevice::detachIOService`, with `IOService::removeIODevice` -/
def detachIOService (s : Devices) (o : Nat) : Devices :=
  match s.device o with
  | none => s
  | some d =>
    match d.ioService with
    | none => s
    | some service => (s.epollDel service d.fd).put o { d with ioService := none }

/-- `IODevice::attachIOService`, with `IOService::addIODevice` -/
def attachIOService (s : Devices) (o service : Nat) (ok : Bool) : Devices × Bool :=
  let s := s.detachIOService o
  match s.device o with
  | none => (s, false)
  | some d =>
    match s.epollAdd service o d.fd ok with
    | (s, false) => (s, false)
    | (s, true) => (s.put o { d with ioService := some service }, true)

/-- `IODevice::dupDescriptor` -/
def dupDescriptor (s : Devices) (o fd : Nat) (answer : Option Nat) : Devices × Bool :=
  match s.files fd with
  | none => (s, false)
  | some type =>
    match s.newFile type answer with
    | (s, none) => (s, false)
    | (s, some dupFd) => (s.setDescriptor o .fd dupFd, true)

/-- The end of `close`: close what a member holds. -/
def closeMember (s : Devices) (o : Nat) (member : Member) : Devices :=
  match s.device o with
  | none => s
  | some d =>
    match d.get member with
    | none => s
    | some fd => (s.closeFile fd).put o (d.set member none)

/-- `TcpSocket::close`, `UdpSocket::close` and `SelfPipe::close`; an `IODevice` has none. -/
def close (s : Devices) (o : Nat) : Devices :=
  match (s.device o).map Device.kind with
  | some .selfPipe => ((s.detachIOService o).closeMember o .fd).closeMember o .fd1
  | some .tcpSocket | some .udpSocket => (s.detachIOService o).closeMember o .fd
  | some .ioDevice | none => s

/-- The end of a device. -/
def erase (s : Devices) (o : Nat) : Devices :=
  match s.device o with
  | none => s
  | some d => { (s.drop d.fd).drop d.fd1 with device := update s.device o none }

/-- The destructors: that of the class, then that of `IODevice`. -/
def destruct (s : Devices) (o : Nat) : Devices := ((s.close o).detachIOService o).erase o

/-- `if (fd_ != -1) close()` -/
def closeOpen (s : Devices) (o : Nat) : Devices :=
  if ((s.device o).bind Device.fd).isSome then s.close o else s

/-! ## Sockets -/

/-- `TcpSocket::open` and `UdpSocket::open`. When `::socket` fails, the member is -1 as it
was before. -/
def openSocket (type : FileType) (s : Devices) (o : Nat) (protocol : Protocol) (a : OpenAnswers) :
    Devices × Bool :=
  let s := s.closeOpen o
  match protocol with
  | .unknown => (s, false)
  | .ipV4 | .ipV6 =>
    match s.newFile type a.fd with
    | (s, none) => (s, false)
    | (s, some fd) =>
      let s := s.setDescriptor o .fd fd
      if a.setCloseOnExec then (s, true) else (s.close o, false)

/-- A call that is to follow another. If it fails, what the other has opened is closed. -/
def andThen (r : Devices × Bool) (o : Nat) (ok : Bool) : Devices × Bool :=
  match r with
  | (s, false) => (s, false)
  | (s, true) => if ok then (s, true) else (s.close o, false)

def TcpSocket.open (s : Devices) (o : Nat) (protocol : Protocol) (a : OpenAnswers) : Devices × Bool :=
  openSocket .stream s o protocol a

def TcpSocket.activeOpen (s : Devices) (o : Nat) (protocol : Protocol) (a : OpenAnswers) :
    Devices × Bool :=
  andThen (TcpSocket.open s o protocol a) o (a.setReuseAddr && a.setTcpNoDelay && a.connect)

def TcpSocket.activeOpenNonblock (s : Devices) (o : Nat) (protocol : Protocol) (a : OpenAnswers) :
    Devices × Bool :=
  andThen (TcpSocket.activeOpen s o protocol a) o a.setNonblock

def TcpSocket.passiveOpen (s : Devices) (o : Nat) (protocol : Protocol) (a : OpenAnswers) :
    Devices × Bool :=
  andThen (TcpSocket.open s o protocol a) o
    (a.setReuseAddr && a.setTcpNoDelay && a.bind && a.listen)

def TcpSocket.passiveOpenNonblock (s : Devices) (o : Nat) (protocol : Protocol) (a : OpenAnswers) :
    Devices × Bool :=
  andThen (TcpSocket.passiveOpen s o protocol a) o a.setNonblock

/-- `TcpSocket::accept`; there is nothing to accept for -1. -/
def TcpSocket.accept (s : Devices) (o peer : Nat) (a : OpenAnswers) : Devices × Bool :=
  match (s.device o).bind Device.fd with
  | none => (s, false)
  | some _ =>
    match s.newFile .stream a.fd with
    | (s, none) => (s, false)
    | (s, some fd) => andThen (s.setDescriptor peer .fd fd, true) peer a.setCloseOnExec

def TcpSocket.acceptNonblock (s : Devices) (o peer : Nat) (a : OpenAnswers) : Devices × Bool :=
  andThen (TcpSocket.accept s o peer a) peer (a.setTcpNoDelay && a.setNonblock)

def UdpSocket.open (s : Devices) (o : Nat) (protocol : Protocol) (a : OpenAnswers) : Devices × Bool :=
  openSocket .datagram s o protocol a

def UdpSocket.activeOpen (s : Devices) (o : Nat) (protocol : Protocol) (a : OpenAnswers) :
    Devices × Bool :=
  andThen (UdpSocket.open s o protocol a) o a.connect

def UdpSocket.activeOpenNonblock (s : Devices) (o : Nat) (protocol : Protocol) (a : OpenAnswers) :
    Devices × Bool :=
  andThen (UdpSocket.activeOpen s o protocol a) o a.setNonblock

def UdpSocket.passiveOpen (s : Devices) (o : Nat) (protocol : Protocol) (a : OpenAnswers) :
    Devices × Bool :=
  andThen (UdpSocket.open s o protocol a) o a.bind

def UdpSocket.passiveOpenNonblock (s : Devices) (o : Nat) (protocol : Protocol) (a : OpenAnswers) :
    Devices × Bool :=
  andThen (UdpSocket.passiveOpen s o protocol a) o a.setNonblock

/-- `SelfPipe::open`; `::pipe` makes two descriptors or none. -/
def SelfPipe.open (s : Devices) (o : Nat) (answer : Option (Nat × Nat)) : Devices × Bool :=
  let s := s.closeOpen o
  match answer with
  | none => (s, false)
  | some (readEnd, writeEnd) =>
    if readEnd ≠ writeEnd ∧ s.files readEnd = none ∧ s.files writeEnd = none then
      let s := (s.setFile readEnd (some .pipe)).setFile writeEnd (some .pipe)
      ((s.setDescriptor o .fd readEnd).setDescriptor o .fd1 writeEnd, true)
    else
      (s, false)

/-! ## Steps -/

end Devices

/-- The calls that open a socket for an address. -/
inductive OpenCall
  | plain
  | active
  | activeNonblock
  | passive
  | passiveNonblock

/-- A call for the device with a number. -/
inductive DeviceOp
  | construct (o : Nat) (kind : DeviceKind)
  | destruct (o : Nat)
  | attachIOService (o service : Nat) (ok : Bool)
  | detachIOService (o : Nat)
  | dupDescriptor (o fd : Nat) (answer : Option Nat)
  | close (o : Nat)
  | tcpOpen (call : OpenCall) (o : Nat) (protocol : Protocol) (answers : OpenAnswers)
  | udpOpen (call : OpenCall) (o : Nat) (protocol : Protocol) (answers : OpenAnswers)
  | accept (o peer : Nat) (answers : OpenAnswers)
  | acceptNonblock (o peer : Nat) (answers : OpenAnswers)
  | pipeOpen (o : Nat) (answer : Option (Nat × Nat))

namespace Devices

def TcpSocket.call : OpenCall → Devices → Nat → Protocol → OpenAnswers → Devices × Bool
  | .plain => TcpSocket.open
  | .active => TcpSocket.activeOpen
  | .activeNonblock => TcpSocket.activeOpenNonblock
  | .passive => TcpSocket.passiveOpen
  | .passiveNonblock => TcpSocket.passiveOpenNonblock

def UdpSocket.call : OpenCall → Devices → Nat → Protocol → OpenAnswers → Devices × Bool
  | .plain => UdpSocket.open
  | .active => UdpSocket.activeOpen
  | .activeNonblock => UdpSocket.activeOpenNonblock
  | .passive => UdpSocket.passiveOpen
  | .passiveNonblock => UdpSocket.passiveOpenNonblock

/-- There is a device of this class. -/
def has (s : Devices) (o : Nat) (kind : DeviceKind) : Bool :=
  (s.device o).map Device.kind = some kind

/-- A call for a device that there is, and of the class that has the call; no other call is
made. -/
def step (s : Devices) : DeviceOp → Devices × Bool
  | .construct o kind =>
    if s.device o = none then (s.put o (.construct kind), true) else (s, false)
  | .destruct o => (s.destruct o, true)
  | .attachIOService o service ok => s.attachIOService o service ok
  | .detachIOService o => (s.detachIOService o, true)
  | .dupDescriptor o fd answer =>
    if (s.device o).isSome then s.dupDescriptor o fd answer else (s, false)
  | .close o => (s.close o, true)
  | .tcpOpen call o protocol answers =>
    if s.has o .tcpSocket then TcpSocket.call call s o protocol answers else (s, false)
  | .udpOpen call o protocol answers =>
    if s.has o .udpSocket then UdpSocket.call call s o protocol answers else (s, false)
  | .accept o peer answers =>
    if s.has o .tcpSocket && s.has peer .tcpSocket then TcpSocket.accept s o peer answers
    else (s, false)
  | .acceptNonblock o peer answers =>
    if s.has o .tcpSocket && s.has peer .tcpSocket then TcpSocket.acceptNonblock s o peer answers
    else (s, false)
  | .pipeOpen o answer => if s.has o .selfPipe then SelfPipe.open s o answer else (s, false)

end Devices

end Brickred
