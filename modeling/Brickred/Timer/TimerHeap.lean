import Brickred.Lib.ObjectHeap
import Brickred.Timer.Timestamp

/-!
# `TimerHeap` (`timer_heap.cc`)

Timers are heap objects that are reached in two ways: by id through `timers_`,
and through the array `timer_min_heap_`, a binary heap by deadline whose slot 0
holds a null pointer. A timer stores the slot it is in. `none` is a run the
language leaves undefined: a null or dangling dereference, or an index outside
the array.

Indices of the array are `int`s in the code; they are exact here, so the model
is that of the code as long as the array stays below 2^30 slots. The callbacks
are values of a type `C` that the heap stores and hands back.
-/

namespace Brickred

/-- The address of a `Timer`. -/
abbrev TimerPtr := Nat

/-- `Timer` -/
structure Timer (C : Type) where
  id : Int
  timestamp : Timestamp
  timeout : Int
  timerCb : C
  callTimes : Int
  heapPos : Int

namespace Timer

variable {C : Type}

/-- `Timer::getTimeout`: the 64-bit period read back as an `int`. -/
def getTimeout (t : Timer C) : Int := t.timeout.bmod (2 ^ 32)

def setHeapPos (t : Timer C) (heapPos : Int) : Timer C := { t with heapPos }

/-- What `checkTimeout` writes to a timer that stays: one call fewer, unless
the number of calls is unlimited, and the next deadline. -/
def next (t : Timer C) : Timer C :=
  let callTimes := if t.callTimes > 0 then t.callTimes - 1 else t.callTimes
  { t with callTimes, timestamp := t.timestamp.add t.getTimeout }

end Timer

/-- `TimerHeap::Impl`. The field `objects` is the memory its timers live in. -/
structure TimerHeap (C : Type) where
  timerIdAllocator : Int
  timers : Int → Option TimerPtr
  timerMinHeap : Array (Option TimerPtr)
  objects : ObjectHeap (Timer C)

namespace TimerHeap

variable {C : Type}

/-- `TimerHeap::Impl::Impl` -/
def init : TimerHeap C where
  timerIdAllocator := 0
  timers _ := none
  timerMinHeap := #[none]
  objects := .empty

/-- `TimerIdAllocator::getId` -/
def getId (h : TimerHeap C) : TimerHeap C × Int :=
  let value := if h.timerIdAllocator = 2 ^ 63 - 1 then 1 else h.timerIdAllocator + 1
  ({ h with timerIdAllocator := value }, value)

/-- `timer_min_heap_[i]` -/
def slotPtr (h : TimerHeap C) (i : Nat) : Option TimerPtr := h.timerMinHeap[i]?.join

/-- `*timer_min_heap_[i]` -/
def slot (h : TimerHeap C) (i : Nat) : Option (Timer C) := (h.slotPtr i).bind h.objects.cell

/-- `timer->setHeapPos(pos)` -/
def setHeapPos (h : TimerHeap C) (timer : TimerPtr) (pos : Int) : Option (TimerHeap C) := do
  let objects ← h.objects.modify timer (·.setHeapPos pos)
  some { h with objects }

/-- `delete timer` -/
def delete (h : TimerHeap C) (timer : TimerPtr) : Option (TimerHeap C) := do
  let objects ← h.objects.free timer
  some { h with objects }

/-- `TimerHeap::Impl::minHeapTop` -/
def minHeapTop (h : TimerHeap C) : Option TimerPtr :=
  if h.timerMinHeap.size ≤ 1 then none else h.slotPtr 1

/-- Exchange a timer with one below it, with the slots they store: the body
shared by the two shift loops. -/
def exchange (h : TimerHeap C) (upper lower : Nat) : Option (TimerHeap C) := do
  let h ← h.setHeapPos (← h.slotPtr upper) lower
  let h ← h.setHeapPos (← h.slotPtr lower) upper
  some { h with timerMinHeap := h.timerMinHeap.swapIfInBounds upper lower }

/-- The loop of `TimerHeap::Impl::minHeapShiftUp`. -/
def minHeapShiftUpLoop : Nat → TimerHeap C → Nat → Option (TimerHeap C)
  | 0, _, _ => none
  | fuel + 1, h, curIndex =>
    let parentIndex := curIndex / 2
    if parentIndex = 0 then
      some h
    else do
      let cur ← h.slot curIndex
      let parent ← h.slot parentIndex
      if cur.timestamp.lt parent.timestamp then
        minHeapShiftUpLoop fuel (← h.exchange parentIndex curIndex) parentIndex
      else
        some h

/-- `TimerHeap::Impl::minHeapShiftUp` -/
def minHeapShiftUp (h : TimerHeap C) (curIndex : Nat) : Option (TimerHeap C) :=
  minHeapShiftUpLoop (h.timerMinHeap.size + 1) h curIndex

/-- The child of a slot the loop of `minHeapShiftDown` looks at: the right one
if there is one and its timer is earlier. -/
def lesserChild (h : TimerHeap C) (childIndex : Nat) : Option Nat :=
  if childIndex + 1 < h.timerMinHeap.size then do
    let right ← h.slot (childIndex + 1)
    let left ← h.slot childIndex
    some (if right.timestamp.lt left.timestamp then childIndex + 1 else childIndex)
  else
    some childIndex

/-- The loop of `TimerHeap::Impl::minHeapShiftDown`. -/
def minHeapShiftDownLoop : Nat → TimerHeap C → Nat → Option (TimerHeap C)
  | 0, _, _ => none
  | fuel + 1, h, curIndex =>
    if curIndex * 2 ≥ h.timerMinHeap.size then
      some h
    else do
      let childIndex ← h.lesserChild (curIndex * 2)
      let child ← h.slot childIndex
      let cur ← h.slot curIndex
      if child.timestamp.lt cur.timestamp then
        minHeapShiftDownLoop fuel (← h.exchange curIndex childIndex) childIndex
      else
        some h

/-- `TimerHeap::Impl::minHeapShiftDown` -/
def minHeapShiftDown (h : TimerHeap C) (curIndex : Nat) : Option (TimerHeap C) :=
  minHeapShiftDownLoop (h.timerMinHeap.size + 1) h curIndex

/-- `TimerHeap::Impl::minHeapInsert` -/
def minHeapInsert (h : TimerHeap C) (timer : TimerPtr) : Option (TimerHeap C) := do
  let curIndex := h.timerMinHeap.size
  let h := { h with timerMinHeap := h.timerMinHeap.push (some timer) }
  let h ← h.setHeapPos timer curIndex
  h.minHeapShiftUp curIndex

/-- `parent_index > 0 &&` the timer in the slot is earlier than its parent. -/
def beforeParent (h : TimerHeap C) (curIndex : Nat) : Option Bool :=
  if curIndex / 2 > 0 then do
    let cur ← h.slot curIndex
    let parent ← h.slot (curIndex / 2)
    some (cur.timestamp.lt parent.timestamp)
  else
    some false

/-- Restore the order around a slot that got another timer: the end of
`TimerHeap::Impl::minHeapErase`. -/
def minHeapRestore (h : TimerHeap C) (curIndex : Nat) : Option (TimerHeap C) := do
  if curIndex ≥ h.timerMinHeap.size then
    some h
  else if ← h.beforeParent curIndex then
    h.minHeapShiftUp curIndex
  else
    h.minHeapShiftDown curIndex

/-- `TimerHeap::Impl::minHeapErase` -/
def minHeapErase (h : TimerHeap C) (timer : TimerPtr) : Option (TimerHeap C) := do
  let t ← h.objects.cell timer
  if t.heapPos < 0 then
    some h
  else
    let curIndex := t.heapPos.toNat
    let h ← h.setHeapPos timer (-1)
    let back ← h.timerMinHeap.back?
    -- the last timer moves to the freed slot, be it the one that is erased
    let h := { h with timerMinHeap := h.timerMinHeap.setIfInBounds curIndex back }
    let h ← h.setHeapPos (← h.slotPtr curIndex) curIndex
    let h := { h with timerMinHeap := h.timerMinHeap.pop }
    h.minHeapRestore curIndex

/-- `timers_.insert` or `timers_.erase` -/
def setTimers (h : TimerHeap C) (timerId : Int) (timer : Option TimerPtr) : TimerHeap C :=
  { h with timers := fun id => if id = timerId then timer else h.timers id }

/-- `TimerHeap::Impl::addTimer` -/
def addTimer (h : TimerHeap C) (now : Timestamp) (timeoutMs : Int) (timerCb : C)
    (callTimes : Int) : Option (TimerHeap C × Int) := do
  let (h, timerId) := h.getId
  let timeoutMs := max 0 timeoutMs
  let (objects, timer) := h.objects.alloc
    { id := timerId, timestamp := now.add timeoutMs, timeout := timeoutMs, timerCb, callTimes,
      heapPos := -1 }
  let h := { h with objects }
  match h.timers timerId with
  | some _ =>
    -- the new timer is still owned by its `UniquePtr`
    some (← h.delete timer, -1)
  | none =>
    let h := h.setTimers timerId (some timer)
    some (← h.minHeapInsert timer, timerId)

/-- `TimerHeap::Impl::removeTimer` -/
def removeTimer (h : TimerHeap C) (timerId : Int) : Option (TimerHeap C) :=
  match h.timers timerId with
  | none => some h
  | some timer => do
    let h ← h.minHeapErase timer
    (h.setTimers timerId none).delete timer

/-- A callback that `checkTimeout` is about to invoke, with the deadline its
timer had. -/
structure Firing (C : Type) where
  timerId : Int
  timerCb : C
  deadline : Timestamp

/-- What `checkTimeout` does with a timer it has taken out of the heap: one that
was on its last call is deleted, the others are put back at their next
deadline. -/
def rearm (h : TimerHeap C) (timer : TimerPtr) : Option (TimerHeap C) := do
  let t ← h.objects.cell timer
  if t.callTimes = 1 then
    (h.setTimers t.id none).delete timer
  else
    let objects ← h.objects.modify timer (·.next)
    minHeapInsert { h with objects } timer

/-- One turn of the loop of `TimerHeap::Impl::checkTimeout`, up to the point
where it returns or invokes a callback. -/
def checkTimeout (h : TimerHeap C) (now : Timestamp) :
    Option (TimerHeap C × Option (Firing C)) :=
  match h.minHeapTop with
  | none => some (h, none)
  | some timer => do
    let t ← h.objects.cell timer
    if now.millisecondLess t.timestamp then
      some (h, none)
    else
      let h ← h.minHeapErase timer
      let h ← h.rearm timer
      some (h, some ⟨t.id, t.timerCb, t.timestamp⟩)

/-- `TimerHeap::Impl::getNextTimeoutMillisecond` -/
def getNextTimeoutMillisecond (h : TimerHeap C) (now : Timestamp) : Option Int :=
  match h.minHeapTop with
  | none => some (-1)
  | some timer => do
    let t ← h.objects.cell timer
    some (if t.timestamp.lt now then 0 else now.distanceMillisecond t.timestamp)

end TimerHeap

end Brickred
