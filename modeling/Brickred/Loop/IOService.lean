import Mathlib.Logic.Function.Basic
import Brickred.Timer.TimerHeap

/-!
# `IOService` and `IODevice` (`io_service.cc`, `io_device.cc`)

One service, the devices that the program makes, and what the kernel keeps of them in
the interest list of `epoll_fd_`. The kernel has a device's address and nothing else of
it; an address is free for another device when the one there is destroyed. A device has
a serial number here, and an event has that of the device it was registered for: the
code does not have these numbers and nothing depends on them. They tell two devices
that have had the same address apart.

A `Function` is an `Option`, and calling an empty one is a fault. The loop hands control
to a callback in the middle of its work, and the callback may do to the devices and the
timers whatever it likes. Three things are left out. `loop` is not called from inside a
callback of the same service, a device gets its descriptor while it is detached, and no
descriptor is closed that has a duplicate while a device is registered for it.
-/

namespace Brickred

/-- The address of an `IODevice`. -/
abbrev DevicePtr := Nat

/-- The three callbacks of a device, in the order in which `loop` comes to them. -/
inductive Branch where
  | write
  | read
  | error
  deriving DecidableEq

/-- `epoll_event::events` -/
structure EpollEvents where
  epollin : Bool
  epollpri : Bool
  epollrdhup : Bool
  epollout : Bool
  epollerr : Bool
  epollhup : Bool
  deriving DecidableEq

namespace EpollEvents

/-- The test that `loop` makes before a branch. -/
def has (e : EpollEvents) : Branch → Bool
  | .write => e.epollout
  | .read => e.epollin || e.epollpri || e.epollrdhup
  | .error => e.epollerr || e.epollhup

/-- What may be reported of a device registered with `interest`: errors always are. -/
def within (e interest : EpollEvents) : Bool :=
  (!e.epollin || interest.epollin) && (!e.epollpri || interest.epollpri) &&
    (!e.epollrdhup || interest.epollrdhup) && (!e.epollout || interest.epollout)

end EpollEvents

/-- `epoll_event`, with the number of the device it was registered for. -/
structure EpollEvent where
  events : EpollEvents
  ptr : DevicePtr
  serial : Nat
  deriving DecidableEq

/-- What `io_service_` points to. -/
inductive ServiceRef where
  | this
  | other
  deriving DecidableEq

/-- `IODevice` -/
structure IODevice (C : Type) where
  serial : Nat
  ioService : Option ServiceRef
  fd : Int
  readCb : Option C
  writeCb : Option C
  errorCb : Option C

namespace IODevice

variable {C : Type}

/-- `getWriteCallback`, `getReadCallback` and `getErrorCallback`. -/
def callback (d : IODevice C) : Branch → Option C
  | .write => d.writeCb
  | .read => d.readCb
  | .error => d.errorCb

/-- The events that `addIODevice` and `updateIODevice` ask for. -/
def interest (d : IODevice C) : EpollEvents where
  epollin := d.readCb.isSome
  epollpri := d.readCb.isSome
  epollrdhup := d.readCb.isSome
  epollout := d.writeCb.isSome
  epollerr := false
  epollhup := false

end IODevice

/-- Where the control is: outside `loop` or in a callback it is with the program. In a
callback for an event the branches of the event and the events still to come are kept;
`count` is what `epoll_wait` returned. -/
inductive LoopControl where
  | outside
  | waiting
  | event (count : Nat) (ev : EpollEvent) (branches : List Branch) (rest : List EpollEvent)
  | timer (count : Nat) (now : Timestamp)

/-- The control is with the program. -/
def LoopControl.isUser : LoopControl → Bool
  | .waiting => false
  | _ => true

/-- `IOService::Impl`, with the interest list that the kernel keeps for `epoll_fd_` by
descriptor, the devices in memory, and the number of devices made so far. -/
structure IOService (C : Type) where
  quit : Bool
  /-- `events_.size()` -/
  events : Nat
  removedIODevices : DevicePtr → Bool
  timerHeap : TimerHeap (Option C)
  epoll : Int → Option EpollEvent
  device : DevicePtr → Option (IODevice C)
  serials : Nat
  control : LoopControl

/-- Why a run stops: the loop uses a device that does not exist, or calls an empty
`Function`; or there is no such step, because the program has no such object or the
control is not with it, or because the kernel does not return that. -/
inductive IOFault where
  | dangling
  | emptyFunction
  | noStep
  deriving DecidableEq

/-- What is seen of a run. -/
inductive IOOutput (C : Type) where
  /-- `epoll_wait` is called with a timeout. -/
  | waited (timeout : Int)
  /-- `epoll_wait` returns events. -/
  | fetched (events : List EpollEvent)
  /-- `removeIODevice` is called for a device. -/
  | removed (serial : Nat)
  /-- A device's callback is called on the device at `ptr`. -/
  | invoked (branch : Branch) (ptr : DevicePtr) (serial : Nat) (cb : C)
  | timeout (timerId : Int) (cb : C)
  deriving DecidableEq

/-- What the program can do. The flags are the results of `epoll_ctl`. -/
inductive IOCall (C : Type) where
  | create (ptr : DevicePtr)
  | destroy (ptr : DevicePtr)
  | attachIOService (ptr : DevicePtr) (service : ServiceRef) (ok : Bool)
  | detachIOService (ptr : DevicePtr)
  | setDescriptor (ptr : DevicePtr) (fd : Int)
  /-- The kernel forgets a descriptor that is closed, unless there is a duplicate of it: that
  there is none is assumed. -/
  | close (fd : Int)
  | setReadCallback (ptr : DevicePtr) (cb : Option C) (ok : Bool)
  | setWriteCallback (ptr : DevicePtr) (cb : Option C) (ok : Bool)
  | setErrorCallback (ptr : DevicePtr) (cb : Option C)
  | startTimer (now : Timestamp) (timeoutMs : Int) (cb : Option C) (callTimes : Int)
  | stopTimer (timerId : Int)
  | quit

/-- One step of a run. Times are what the clock shows when the code looks. -/
inductive IOOp (C : Type) where
  | call (call : IOCall C)
  | loop
  /-- `epoll_wait` returns, for some descriptors, what has happened to them. -/
  | epollWait (before : Timestamp) (ready : List (Int × EpollEvents)) (now : Timestamp)
  | epollInterrupted (before : Timestamp)
  | epollFailed (before : Timestamp)
  | callbackReturn (now : Timestamp)

namespace IOService

variable {C : Type}

/-- `IOService::Impl::Impl`, before any device is made. -/
def init : IOService C where
  quit := false
  events := 32
  removedIODevices _ := false
  timerHeap := .init
  epoll _ := none
  device _ := none
  serials := 0
  control := .outside

/-! ## Devices -/

/-- An assignment to fields of the device at `ptr`. -/
def setDevice (s : IOService C) (ptr : DevicePtr) (d : IODevice C) : IOService C :=
  { s with device := Function.update s.device ptr (some d) }

/-- `IOService::Impl::addIODevice` -/
def addIODevice (s : IOService C) (ptr : DevicePtr) (d : IODevice C) (ok : Bool) :
    IOService C × Bool :=
  if ok && (s.epoll d.fd).isNone then
    ({ s with epoll := Function.update s.epoll d.fd (some ⟨d.interest, ptr, d.serial⟩) }, true)
  else
    (s, false)

/-- `IOService::Impl::removeIODevice` -/
def removeIODevice (s : IOService C) (ptr : DevicePtr) (d : IODevice C) : IOService C :=
  { s with
    epoll := Function.update s.epoll d.fd none
    removedIODevices := Function.update s.removedIODevices ptr true }

/-- `IOService::Impl::updateIODevice` -/
def updateIODevice (s : IOService C) (ptr : DevicePtr) (d : IODevice C) (ok : Bool) :
    IOService C :=
  if ok && (s.epoll d.fd).isSome then
    { s with epoll := Function.update s.epoll d.fd (some ⟨d.interest, ptr, d.serial⟩) }
  else
    s

/-- `IOService::Impl::checkIODeviceExist` -/
def checkIODeviceExist (s : IOService C) (ptr : DevicePtr) : Bool := !s.removedIODevices ptr

/-- `IODevice::detachIOService` -/
def detachIOService (s : IOService C) (ptr : DevicePtr) (d : IODevice C) :
    IOService C × List (IOOutput C) :=
  match d.ioService with
  | none => (s, [])
  | some .other => (s.setDevice ptr { d with ioService := none }, [])
  | some .this =>
    ((s.removeIODevice ptr d).setDevice ptr { d with ioService := none }, [.removed d.serial])

/-- `IODevice::attachIOService` -/
def attachIOService (s : IOService C) (ptr : DevicePtr) (d : IODevice C) (service : ServiceRef)
    (ok : Bool) : IOService C × List (IOOutput C) :=
  let (s, outs) := s.detachIOService ptr d
  match service with
  | .other =>
    if ok then (s.setDevice ptr { d with ioService := some .other }, outs) else (s, outs)
  | .this =>
    match s.addIODevice ptr d ok with
    | (s, false) => (s, outs)
    | (s, true) => (s.setDevice ptr { d with ioService := some .this }, outs)

/-- `updateIODevice` on the service of a device, if it has one, after an assignment to its
callbacks: the end of `setReadCallback` and `setWriteCallback`. -/
def assignCallback (s : IOService C) (ptr : DevicePtr) (d : IODevice C) (ok : Bool) :
    IOService C :=
  let s := s.setDevice ptr d
  if d.ioService = some .this then s.updateIODevice ptr d ok else s

/-- `IODevice::setReadCallback` -/
def setReadCallback (s : IOService C) (ptr : DevicePtr) (d : IODevice C) (cb : Option C)
    (ok : Bool) : IOService C :=
  s.assignCallback ptr { d with readCb := cb } ok

/-- `IODevice::setWriteCallback` -/
def setWriteCallback (s : IOService C) (ptr : DevicePtr) (d : IODevice C) (cb : Option C)
    (ok : Bool) : IOService C :=
  s.assignCallback ptr { d with writeCb := cb } ok

/-- `IODevice::setErrorCallback` -/
def setErrorCallback (s : IOService C) (ptr : DevicePtr) (d : IODevice C) (cb : Option C) :
    IOService C :=
  s.setDevice ptr { d with errorCb := cb }

/-- `IODevice::IODevice` -/
def create (s : IOService C) (ptr : DevicePtr) : IOService C :=
  { s.setDevice ptr ⟨s.serials, none, -1, none, none, none⟩ with serials := s.serials + 1 }

/-- `IODevice::~IODevice` -/
def destroy (s : IOService C) (ptr : DevicePtr) (d : IODevice C) :
    IOService C × List (IOOutput C) :=
  let (s, outs) := s.detachIOService ptr d
  ({ s with device := Function.update s.device ptr none }, outs)

/-- The device that a member function is called on. -/
def deviceAt (s : IOService C) (ptr : DevicePtr) : Except IOFault (IODevice C) :=
  match s.device ptr with
  | none => .error .noStep
  | some d => .ok d

/-- A call that the program makes. -/
def call (s : IOService C) : IOCall C → Except IOFault (IOService C × List (IOOutput C))
  | .create ptr =>
    match s.device ptr with
    | some _ => .error .noStep
    | none => .ok (s.create ptr, [])
  | .destroy ptr => do
    let d ← s.deviceAt ptr
    .ok (s.destroy ptr d)
  | .attachIOService ptr service ok => do
    let d ← s.deviceAt ptr
    .ok (s.attachIOService ptr d service ok)
  | .detachIOService ptr => do
    let d ← s.deviceAt ptr
    .ok (s.detachIOService ptr d)
  | .setDescriptor ptr fd => do
    let d ← s.deviceAt ptr
    if d.ioService = none then .ok (s.setDevice ptr { d with fd }, []) else .error .noStep
  | .close fd => .ok ({ s with epoll := Function.update s.epoll fd none }, [])
  | .setReadCallback ptr cb ok => do
    let d ← s.deviceAt ptr
    .ok (s.setReadCallback ptr d cb ok, [])
  | .setWriteCallback ptr cb ok => do
    let d ← s.deviceAt ptr
    .ok (s.setWriteCallback ptr d cb ok, [])
  | .setErrorCallback ptr cb => do
    let d ← s.deviceAt ptr
    .ok (s.setErrorCallback ptr d cb, [])
  | .startTimer now timeoutMs cb callTimes =>
    match s.timerHeap.addTimer now timeoutMs cb callTimes with
    | none => .error .dangling
    | some (timerHeap, _) => .ok ({ s with timerHeap }, [])
  | .stopTimer timerId =>
    match s.timerHeap.removeTimer timerId with
    | none => .error .dangling
    | some timerHeap => .ok ({ s with timerHeap }, [])
  | .quit => .ok ({ s with quit := true }, [])

/-! ## The loop -/

/-- The branches of one event, from one of them on, up to the first that calls a callback.
A removed device ends the event: `continue`. -/
def handleEvent (s : IOService C) (count : Nat) (ev : EpollEvent) (rest : List EpollEvent) :
    List Branch → Except IOFault (Option (IOService C × List (IOOutput C)))
  | [] => .ok none
  | b :: branches =>
    if ev.events.has b then
      if s.checkIODeviceExist ev.ptr = false then
        .ok none
      else
        match s.device ev.ptr with
        | none => .error .dangling
        | some d =>
          match d.callback b with
          | some cb =>
            .ok (some ({ s with control := .event count ev branches rest },
              [.invoked b ev.ptr d.serial cb]))
          -- only the last branch tests the callback before it calls it
          | none => if b = .error then s.handleEvent count ev rest branches
            else .error .emptyFunction
    else
      s.handleEvent count ev rest branches

/-- `do event callback` -/
def handleEvents (s : IOService C) (count : Nat) :
    List EpollEvent → Except IOFault (Option (IOService C × List (IOOutput C)))
  | [] => .ok none
  | ev :: rest => do
    match ← s.handleEvent count ev rest [.write, .read, .error] with
    | some r => .ok (some r)
    | none => s.handleEvents count rest

/-- The test of the outer loop. -/
def next (s : IOService C) : IOService C :=
  { s with control := if s.quit then .outside else .waiting }

/-- `do timer callback` and the rest of the body of the outer loop. -/
def handleTimers (s : IOService C) (count : Nat) (now : Timestamp) :
    Except IOFault (IOService C × List (IOOutput C)) :=
  match s.timerHeap.checkTimeout now with
  | none => .error .dangling
  | some (timerHeap, some firing) =>
    match firing.timerCb with
    | none => .error .emptyFunction
    | some cb =>
      .ok ({ s with timerHeap, control := .timer count now }, [.timeout firing.timerId cb])
  | some (timerHeap, none) =>
    .ok (next { s with
      timerHeap
      removedIODevices := fun _ => false
      events := if count ≥ s.events then s.events * 2 else s.events }, [])

/-- Go on with the body of the outer loop, when `handled` is what is left of an event and
`rest` are the events after it. -/
def proceed (s : IOService C) (count : Nat)
    (handled : Except IOFault (Option (IOService C × List (IOOutput C))))
    (rest : List EpollEvent) (now : Timestamp) :
    Except IOFault (IOService C × List (IOOutput C)) := do
  match ← handled with
  | some r => .ok r
  | none =>
    match ← s.handleEvents count rest with
    | some r => .ok r
    | none => s.handleTimers count now

/-- The timeout that `loop` passes to `epoll_wait`. -/
def epollTimeout (s : IOService C) (now : Timestamp) : Option Int :=
  (s.timerHeap.getNextTimeoutMillisecond now).map fun timerTimeout =>
    (min timerTimeout (35 * 60 * 1000)).bmod (2 ^ 32)

/-- What the kernel returns for a descriptor in the interest list. -/
def epollEvent (s : IOService C) (ready : Int × EpollEvents) : Except IOFault EpollEvent :=
  match s.epoll ready.1 with
  | none => .error .noStep
  | some registered =>
    if ready.2.within registered.events then .ok { registered with events := ready.2 }
    else .error .noStep

/-- `epoll_wait`, which computes its timeout first. -/
def wait (s : IOService C) (before : Timestamp) : Except IOFault (IOOutput C) :=
  match s.control, s.epollTimeout before with
  | .waiting, some timeout => .ok (.waited timeout)
  | .waiting, none => .error .dangling
  | _, _ => .error .noStep

def step (s : IOService C) : IOOp C → Except IOFault (IOService C × List (IOOutput C))
  | .call call => if s.control.isUser then s.call call else .error .noStep
  | .loop =>
    match s.control with
    | .outside => .ok (next { s with quit := false }, [])
    | _ => .error .noStep
  | .epollWait before ready now => do
    let waited ← s.wait before
    let events ← ready.mapM s.epollEvent
    if events.length > s.events then
      .error .noStep
    else
      let (s, outs) ← s.proceed events.length (.ok none) events now
      .ok (s, waited :: .fetched events :: outs)
  | .epollInterrupted before => do
    let waited ← s.wait before
    .ok (s.next, [waited])
  | .epollFailed before => do
    let waited ← s.wait before
    .ok ({ s with control := .outside }, [waited])
  | .callbackReturn now =>
    match s.control with
    | .event count ev branches rest =>
      s.proceed count (s.handleEvent count ev rest branches) rest now
    | .timer count timersNow => s.handleTimers count timersNow
    | _ => .error .noStep

end IOService

end Brickred
