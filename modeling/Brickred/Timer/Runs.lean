import Brickred.Timer.Invariant

/-!
# Runs of a `TimerHeap`

A run is any sequence of calls on one heap. `checkTimeout` hands control to a
callback in the middle of its loop, and the callback may call any of the
operations before it returns, `checkTimeout` included. So the state of a run is
the heap together with the calls of `checkTimeout` that are inside a callback;
between two steps the control is with the user, either outside every call or in
the innermost callback.
-/

namespace Brickred

/-- A call on the heap, or the return of the innermost callback. -/
inductive TimerOp (C : Type) where
  | addTimer (now : Timestamp) (timeoutMs : Int) (timerCb : C) (callTimes : Int)
  | removeTimer (timerId : Int)
  | checkTimeout (now : Timestamp)
  | callbackReturn

/-- The heap, and the arguments of the calls of `checkTimeout` that wait for a
callback, innermost first. -/
structure TimerRun (C : Type) where
  heap : TimerHeap C
  calls : List Timestamp

namespace TimerRun

variable {C : Type}

def init : TimerRun C := ⟨.init, []⟩

/-- Go on with the loop of `checkTimeout(now)` until it returns or invokes a
callback. -/
def resume (heap : TimerHeap C) (now : Timestamp) (calls : List Timestamp) :
    Option (TimerRun C × Option (TimerHeap.Firing C)) := do
  match ← heap.checkTimeout now with
  | (heap, none) => some (⟨heap, calls⟩, none)
  | (heap, some firing) => some (⟨heap, now :: calls⟩, some firing)

/-- One step, with the callback it invokes. -/
def step (s : TimerRun C) :
    TimerOp C → Option (TimerRun C × Option (TimerHeap.Firing C))
  | .addTimer now timeoutMs timerCb callTimes => do
    let (heap, _) ← s.heap.addTimer now timeoutMs timerCb callTimes
    some ({ s with heap }, none)
  | .removeTimer timerId => do
    let heap ← s.heap.removeTimer timerId
    some ({ s with heap }, none)
  | .checkTimeout now => resume s.heap now s.calls
  | .callbackReturn =>
    match s.calls with
    | [] => some (s, none)
    | now :: calls => resume s.heap now calls

/-- A run, with the callbacks it invokes in order. -/
def run (s : TimerRun C) :
    List (TimerOp C) → Option (TimerRun C × List (TimerHeap.Firing C))
  | [] => some (s, [])
  | op :: ops => do
    let (s, firing) ← s.step op
    let (s, firings) ← s.run ops
    some (s, firing.toList ++ firings)

variable {s s' : TimerRun C} {heap : TimerHeap C} {now : Timestamp} {calls : List Timestamp}
  {op : TimerOp C} {ops : List (TimerOp C)} {firings : List (TimerHeap.Firing C)}

theorem run_cons {f : Option (TimerHeap.Firing C)} (hs : s.step op = some (s', f)) :
    s.run (op :: ops) = (s'.run ops).map fun r => (r.1, f.toList ++ r.2) := by
  simp only [run, hs, Option.bind_eq_bind, Option.bind_some]
  cases s'.run ops <;> rfl

/-! ## The invariant along a run -/

/-- What a turn of the loop of `checkTimeout` leads to. -/
theorem resume_spec (hi : heap.Inv) (now : Timestamp) (calls : List Timestamp) :
    (resume heap now calls = some (⟨heap, calls⟩, none) ∧
      ∀ t ∈ heap.entries, ¬TimerHeap.Due now t) ∨
    ∃ heap' t l, resume heap now calls =
        some (⟨heap', now :: calls⟩, some ⟨t.id, t.timerCb, t.timestamp⟩) ∧
      heap'.Inv ∧ TimerHeap.Due now t ∧ heap.entries.Perm (t :: l) ∧
      (∀ u ∈ heap.entries, t.timestamp.nanos ≤ u.timestamp.nanos) ∧
      heap'.entries.Perm (if t.callTimes = 1 then l else t.next :: l) := by
  rcases TimerHeap.checkTimeout_spec hi now with ⟨e, hnone⟩ | ⟨heap', t, l, e, hrest⟩
  · exact .inl ⟨by rw [resume, e]; rfl, hnone⟩
  · exact .inr ⟨heap', t, l, by rw [resume, e]; rfl, hrest⟩

theorem resume_inv (hi : heap.Inv) (now : Timestamp) (calls : List Timestamp) :
    ∃ s' f, resume heap now calls = some (s', f) ∧ s'.heap.Inv := by
  rcases resume_spec hi now calls with ⟨e, -⟩ | ⟨heap', t, l, e, hi', -⟩
  · exact ⟨_, _, e, hi⟩
  · exact ⟨_, _, e, hi'⟩

/-- Every step is defined and keeps the invariant. -/
theorem step_inv (hi : s.heap.Inv) (op : TimerOp C) :
    ∃ s' f, s.step op = some (s', f) ∧ s'.heap.Inv := by
  cases op with
  | addTimer now timeoutMs timerCb callTimes =>
    obtain ⟨heap, r, e, hi', -⟩ := TimerHeap.addTimer_spec hi now timeoutMs timerCb callTimes
    exact ⟨⟨heap, s.calls⟩, none, by simp [step, e], hi'⟩
  | removeTimer timerId =>
    cases hin : s.heap.timers timerId with
    | none =>
      have e := TimerHeap.removeTimer_absent hin
      exact ⟨s, none, by simp [step, e], hi⟩
    | some a =>
      obtain ⟨heap, t, e, hi', -⟩ := TimerHeap.removeTimer_present hi hin
      exact ⟨⟨heap, s.calls⟩, none, by simp [step, e], hi'⟩
  | checkTimeout now => exact resume_inv hi now s.calls
  | callbackReturn =>
    rw [step]
    cases s.calls with
    | nil => exact ⟨s, none, rfl, hi⟩
    | cons now calls => exact resume_inv hi now calls

/-- Every run is defined and keeps the invariant. -/
theorem run_inv (hi : s.heap.Inv) (ops : List (TimerOp C)) :
    ∃ s' firings, s.run ops = some (s', firings) ∧ s'.heap.Inv := by
  induction ops generalizing s with
  | nil => exact ⟨s, [], rfl, hi⟩
  | cons op ops ih =>
    obtain ⟨s₁, f, e₁, hi₁⟩ := step_inv hi op
    obtain ⟨s₂, firings, e₂, hi₂⟩ := ih hi₁
    exact ⟨s₂, f.toList ++ firings, by rw [run_cons e₁, e₂]; rfl, hi₂⟩

/-- The heap of a state reached from the start satisfies the invariant. -/
theorem inv_of_run (hrun : init.run ops = some (s, firings)) : s.heap.Inv := by
  obtain ⟨s', f, e, hi⟩ := run_inv (s := init) TimerHeap.inv_init ops
  rw [hrun] at e
  cases e
  exact hi

end TimerRun

/-! ## Array, back pointers and id map agree -/

namespace TimerHeap

variable {C : Type} {h : TimerHeap C}

/-- The array and the id map hold the same timers, and these know where they
are. -/
structure Consistent (h : TimerHeap C) : Prop where
  /-- Slot 0 is null. -/
  slotZero : h.timerMinHeap[0]? = some none
  /-- The other slots hold timers of the id map and nothing else. -/
  slots : ∀ i, 0 < i → i < h.timerMinHeap.size →
    ∃ a t, h.slotPtr i = some a ∧ h.objects.cell a = some t ∧ h.timers t.id = some a
  /-- A timer of the id map has its key as id and is in exactly one slot, which is
  the one it stores. -/
  timers : ∀ id a, h.timers id = some a → ∃ t, ∃ i : Nat, h.objects.cell a = some t ∧ t.id = id ∧
    t.heapPos = i ∧ 0 < i ∧ i < h.timerMinHeap.size ∧ ∀ j, h.slotPtr j = some a ↔ j = i
  /-- No timer is earlier than the one in the parent slot. -/
  order : ∀ i t u, 1 < i → h.slot (i / 2) = some t → h.slot i = some u →
    u.timestamp.lt t.timestamp = false

theorem Inv.consistent (hi : Inv h) : Consistent h where
  slotZero := hi.placed.slotZero
  slots i hpos hlt := by
    obtain ⟨a, t, ha, ht, -⟩ := hi.placed.slot i hpos hlt
    exact ⟨a, t, ha, ht, hi.bound.live a t ht⟩
  timers id a ha := by
    obtain ⟨t, ht, hid⟩ := hi.bound.id_eq id a ha
    obtain ⟨i, hai⟩ := List.mem_iff_getElem?.mp (hi.mem_of_timers ha)
    have hptr : h.slotPtr i = some a := by
      rw [slotPtr, ← Array.getElem?_toList, hai]
      rfl
    refine ⟨t, i, ht, hid, hi.placed.heapPos_eq hptr ht, hi.placed.pos_of_slotPtr hptr,
      slotPtr_lt hptr, fun j => ⟨fun hj => hi.placed.slotPtr_inj hj hptr, ?_⟩⟩
    rintro rfl
    exact hptr
  order i t u h1 ht hu := by
    have hlt : i < h.timerMinHeap.size := by
      cases hptr : h.slotPtr i with
      | none => simp [slot, hptr] at hu
      | some a => exact slotPtr_lt hptr
    rw [Bool.eq_false_iff, ne_eq, lt_iff_key hu ht]
    exact not_lt.mpr (hi.ordered i h1 (Nat.le_sub_one_of_lt hlt))

end TimerHeap

/-- Whatever is called on a heap, from inside callbacks or not, no step is
undefined and the heap is consistent after it. -/
theorem run_consistent {C : Type} (ops : List (TimerOp C)) :
    ∃ s firings, TimerRun.init.run ops = some (s, firings) ∧ s.heap.Consistent := by
  obtain ⟨s, firings, e, hi⟩ := TimerRun.run_inv (s := TimerRun.init) TimerHeap.inv_init ops
  exact ⟨s, firings, e, hi.consistent⟩

end Brickred
