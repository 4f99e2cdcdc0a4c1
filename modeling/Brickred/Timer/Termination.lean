import Mathlib.Algebra.BigOperators.Group.List.Basic
import Brickred.Timer.Runs

/-!
# When `checkTimeout` returns

A call `checkTimeout(now)` goes round until no timer is due at `now`. A timer
with a bounded number of calls stops being due at the latest when it is deleted;
one with an unlimited number (`call_times <= 0`) only by its deadline moving past
`now`, and the deadline moves by the period as `Timer::getTimeout` returns it, an
`int`. A callback may call `checkTimeout` in turn, for an instant of its own. So the
calls end for all callbacks that add no timers exactly if that value is positive for
every unlimited timer that is due, then or at the latest of those instants.
-/

namespace Brickred

variable {C : Type}

/-- A call that a callback may make: one that adds no timer, and looks no further than
`latest`. -/
def TimerOp.RemovesOrChecks (latest : Timestamp) : TimerOp C → Prop
  | .removeTimer _ => True
  | .checkTimeout now => now.millis ≤ latest.millis
  | .addTimer .. | .callbackReturn => False

/-- A run in the middle of a call of `checkTimeout`, with what the callbacks that are being
executed have still to call before they return, innermost first, and the number of
callbacks invoked so far. -/
structure TimerCall (C : Type) where
  run : TimerRun C
  todo : List (List (TimerOp C))
  invoked : Nat

namespace TimerCall

variable {script : Nat → List (TimerOp C)} {c c' : TimerCall C} {op : TimerOp C}
  {left : List (List (TimerOp C))}

/-- A step of the run, after which the callbacks have `left` to call: a callback that is
invoked, as the `k`-th one, has all of `script k` before it. -/
def perform (script : Nat → List (TimerOp C)) (c : TimerCall C) (op : TimerOp C)
    (left : List (List (TimerOp C))) : Option (TimerCall C) := do
  let (run, firing) ← c.run.step op
  match firing with
  | none => some { c with run, todo := left }
  | some _ => some ⟨run, script c.invoked :: left, c.invoked + 1⟩

/-- The innermost callback makes its next call, or returns after its last. -/
def step (script : Nat → List (TimerOp C)) (c : TimerCall C) : Option (TimerCall C) :=
  match c.todo with
  | [] => some c
  | [] :: left => c.perform script .callbackReturn left
  | (op :: ops) :: left => c.perform script op (ops :: left)

def steps (script : Nat → List (TimerOp C)) : Nat → TimerCall C → Option (TimerCall C)
  | 0, c => some c
  | n + 1, c => do steps script n (← c.step script)

/-- The call `checkTimeout(now)`, up to the first callback. -/
def start (script : Nat → List (TimerOp C)) (s : TimerRun C) (now : Timestamp) :
    Option (TimerCall C) :=
  perform script ⟨s, [], 0⟩ (.checkTimeout now) []

end TimerCall

/-- `checkTimeout(now)` returns after finitely many steps, whatever the callbacks call
(each finitely often) that adds no timer and checks for no instant after `latest`. -/
def TimerRun.Returns (s : TimerRun C) (now latest : Timestamp) : Prop :=
  ∀ script : Nat → List (TimerOp C), (∀ k, ∀ op ∈ script k, op.RemovesOrChecks latest) →
    ∃ c n c', TimerCall.start script s now = some c ∧ c.steps script n = some c' ∧
      c'.todo = [] ∧ c'.run.calls = s.calls

namespace TimerHeap

variable {h h' : TimerHeap C} {now now' : Timestamp} {t u : Timer C} {l : List (Timer C)}

/-- A timer that stays due for ever. -/
def Stuck (now : Timestamp) (t : Timer C) : Prop :=
  Due now t ∧ t.callTimes ≤ 0 ∧ t.getTimeout ≤ 0

theorem millis_next (t : Timer C) : t.next.timestamp.millis = t.timestamp.millis + t.getTimeout :=
  Timestamp.millis_add _ _

theorem Stuck.next (ht : Stuck now t) : Stuck now t.next := by
  obtain ⟨hdue, hcalls, hperiod⟩ := ht
  unfold Due at hdue
  refine ⟨?_, ?_, hperiod⟩
  · unfold Due
    rw [millis_next]
    omega
  · show (if t.callTimes > 0 then t.callTimes - 1 else t.callTimes) ≤ 0
    rw [if_neg (by omega)]
    exact hcalls

/-- A stuck timer survives every turn. -/
theorem Stuck.turn (ht : Stuck now t) (hmem : t ∈ h.entries) (hperm : h.entries.Perm (u :: l))
    (hperm' : h'.entries.Perm (if u.callTimes = 1 then l else u.next :: l)) :
    ∃ t' ∈ h'.entries, Stuck now t' := by
  rcases List.mem_cons.mp (hperm.mem_iff.mp hmem) with rfl | hl
  · have hne : t.callTimes ≠ 1 := by
      have hcalls := ht.2.1
      omega
    rw [if_neg hne] at hperm'
    exact ⟨t.next, hperm'.mem_iff.mpr (List.mem_cons_self ..), ht.next⟩
  · refine ⟨t, hperm'.mem_iff.mpr ?_, ht⟩
    split
    · exact hl
    · exact List.mem_cons_of_mem _ hl

/-! ## A bound on the callbacks -/

/-- At least the number of times a timer can fire up to `now`. -/
def weight (now : Timestamp) (t : Timer C) : Nat :=
  if t.timestamp.millis ≤ now.millis then
    if t.callTimes > 0 then t.callTimes.toNat
    else (now.millis - t.timestamp.millis + 1).toNat
  else 0

/-- At least the number of callbacks up to `now`. -/
def remaining (now : Timestamp) (h : TimerHeap C) : Nat := (h.entries.map (weight now)).sum

theorem weight_pos (hd : Due now t) : 0 < weight now t := by
  unfold Due at hd
  unfold weight
  rw [if_pos hd]
  split <;> omega

/-- Firing uses up some of a timer's weight, unless it is stuck. -/
theorem weight_next_lt (hd : Due now t) (hs : ¬Stuck now t) (h1 : t.callTimes ≠ 1) :
    weight now t.next < weight now t := by
  by_cases hdue : Due now t.next
  · have hcalls : t.next.callTimes = if t.callTimes > 0 then t.callTimes - 1 else t.callTimes := rfl
    have hmillis := millis_next t
    unfold Stuck at hs
    unfold Due at hd hdue hs
    unfold weight
    rw [if_pos hd, if_pos hdue, hcalls]
    by_cases hpos : t.callTimes > 0
    · rw [if_pos hpos, if_pos hpos, if_pos (by omega)]
      omega
    · rw [if_neg hpos, if_neg hpos, if_neg hpos]
      have hperiod : 0 < t.getTimeout := by
        by_contra hle
        exact hs ⟨hd, by omega, by omega⟩
      omega
  · unfold Due at hdue
    unfold weight
    rw [if_neg hdue]
    exact weight_pos hd

/-- A turn that fires leaves less to fire and no timer stuck. -/
theorem remaining_turn (hs : ∀ t ∈ h.entries, ¬Stuck now t) (hd : Due now u)
    (hperm : h.entries.Perm (u :: l))
    (hperm' : h'.entries.Perm (if u.callTimes = 1 then l else u.next :: l)) :
    remaining now h' < remaining now h ∧ ∀ t ∈ h'.entries, ¬Stuck now t := by
  have hu : ¬Stuck now u := hs u (hperm.mem_iff.mpr (List.mem_cons_self ..))
  have hl : ∀ t ∈ l, ¬Stuck now t := fun t ht =>
    hs t (hperm.mem_iff.mpr (List.mem_cons_of_mem _ ht))
  have hsum : remaining now h = weight now u + (l.map (weight now)).sum :=
    ((hperm.map _).sum_eq).trans (by rw [List.map_cons, List.sum_cons])
  have hsum' : remaining now h' = _ := (hperm'.map (weight now)).sum_eq
  rw [hsum, hsum']
  by_cases h1 : u.callTimes = 1
  · rw [if_pos h1] at hperm' ⊢
    have hpos := weight_pos hd
    exact ⟨by omega, fun t ht => hl t (hperm'.mem_iff.mp ht)⟩
  · rw [if_neg h1] at hperm' ⊢
    have hlt := weight_next_lt hd hu h1
    refine ⟨by rw [List.map_cons, List.sum_cons]; omega, fun t ht => ?_⟩
    rcases List.mem_cons.mp (hperm'.mem_iff.mp ht) with rfl | htl
    · intro hnext
      refine hu ⟨hd, ?_, hnext.2.2⟩
      have hcalls : (if u.callTimes > 0 then u.callTimes - 1 else u.callTimes) ≤ 0 := hnext.2.1
      split at hcalls <;> omega
    · exact hl t htl

/-- Removing a timer leaves no more to fire. -/
theorem remaining_remove (hs : ∀ t ∈ h.entries, ¬Stuck now t)
    (hperm : (u :: h'.entries).Perm h.entries) :
    remaining now h' ≤ remaining now h ∧ ∀ t ∈ h'.entries, ¬Stuck now t := by
  have hsum : remaining now h = weight now u + remaining now h' :=
    ((hperm.symm.map _).sum_eq).trans (by rw [List.map_cons, List.sum_cons]; rfl)
  exact ⟨by omega, fun t ht => hs t (hperm.mem_iff.mp (List.mem_cons_of_mem _ ht))⟩

end TimerHeap

open TimerHeap

namespace TimerRun

variable {s s' : TimerRun C} {last : Timestamp} {base inner rest : List Timestamp}
  {op : TimerOp C} {f : Option (Firing C)}

/-- Inside a call of `checkTimeout` made on top of the calls `base`: `inner` are
that call and those nested in it, none of them for an instant after `last`, at which
no timer is stuck. -/
structure Inside (last : Timestamp) (base : List Timestamp) (s : TimerRun C)
    (inner : List Timestamp) : Prop where
  inv : s.heap.Inv
  free : ∀ t ∈ s.heap.entries, ¬Stuck last t
  calls : s.calls = inner ++ base
  early : ∀ now ∈ inner, now.millis ≤ last.millis

/-- A step has left the calls `kept`, or has invoked a callback on top of them, which
leaves less to fire. -/
def Moved (last : Timestamp) (base : List Timestamp) (s s' : TimerRun C)
    (f : Option (Firing C)) (kept : List Timestamp) : Prop :=
  (f = none ∧ remaining last s'.heap ≤ remaining last s.heap ∧ Inside last base s' kept) ∨
    (∃ firing now, f = some firing ∧ remaining last s'.heap < remaining last s.heap ∧
      Inside last base s' (now :: kept))

/-- Going on with a loop either returns, or there is less left to fire. -/
theorem Inside.resume (hin : Inside last base s inner) {now : Timestamp}
    (hnow : now.millis ≤ last.millis) (hrest : ∀ now' ∈ rest, now'.millis ≤ last.millis) :
    ∃ s' f, TimerRun.resume s.heap now (rest ++ base) = some (s', f) ∧
      Moved last base s s' f rest := by
  rcases resume_spec hin.inv now (rest ++ base) with
    ⟨e, -⟩ | ⟨heap', t, l, e, hi', hdue, hperm, -, hperm'⟩
  · exact ⟨_, _, e, .inl ⟨rfl, le_rfl, hin.inv, hin.free, rfl, hrest⟩⟩
  · have hd : Due last t := le_trans hdue hnow
    obtain ⟨hlt, hfree⟩ := remaining_turn hin.free hd hperm hperm'
    refine ⟨_, _, e, .inr ⟨_, now, rfl, hlt, hi', hfree, rfl, fun now' hmem => ?_⟩⟩
    rcases List.mem_cons.mp hmem with rfl | hmem
    · exact hnow
    · exact hrest now' hmem

/-- A call that adds no timer leaves no more to fire. -/
theorem Inside.step_call (hin : Inside last base s inner) (hop : op.RemovesOrChecks last) :
    ∃ s' f, s.step op = some (s', f) ∧ Moved last base s s' f inner := by
  cases op with
  | addTimer => exact hop.elim
  | callbackReturn => exact hop.elim
  | removeTimer id =>
    cases hid : s.heap.timers id with
    | none =>
      have e : s.step (.removeTimer id) = some (s, none) := by
        simp [TimerRun.step, removeTimer_absent hid]
      exact ⟨s, none, e, .inl ⟨rfl, le_rfl, hin⟩⟩
    | some a =>
      obtain ⟨heap, t, e, hi', -, hperm⟩ := removeTimer_present hin.inv hid
      obtain ⟨hle, hfree⟩ := remaining_remove hin.free hperm
      have e' : s.step (.removeTimer id) = some (⟨heap, s.calls⟩, none) := by
        simp [TimerRun.step, e]
      exact ⟨_, _, e', .inl ⟨rfl, hle, hi', hfree, hin.calls, hin.early⟩⟩
  | checkTimeout now =>
    obtain ⟨s', f, e, hmoved⟩ := hin.resume hop hin.early
    rw [← hin.calls] at e
    exact ⟨s', f, e, hmoved⟩

theorem Inside.step_return {now : Timestamp} (hin : Inside last base s (now :: rest)) :
    ∃ s' f, s.step .callbackReturn = some (s', f) ∧ Moved last base s s' f rest := by
  obtain ⟨s', f, e, hmoved⟩ := hin.resume (hin.early now (List.mem_cons_self ..))
    fun now' hmem => hin.early now' (List.mem_cons_of_mem _ hmem)
  refine ⟨s', f, ?_, hmoved⟩
  rw [TimerRun.step, hin.calls]
  exact e

/-- A stuck timer keeps the loop going however often callbacks return. -/
theorem resume_stuck {heap : TimerHeap C} {now : Timestamp} (calls : List Timestamp)
    (hi : heap.Inv) (hstuck : ∃ t ∈ heap.entries, Stuck now t) :
    ∃ heap' f, TimerRun.resume heap now calls = some (⟨heap', now :: calls⟩, some f) ∧
      heap'.Inv ∧ ∃ t ∈ heap'.entries, Stuck now t := by
  obtain ⟨t, hmem, ht⟩ := hstuck
  rcases resume_spec hi now calls with ⟨-, hnone⟩ | ⟨heap', u, l, e, hi', -, hperm, -, hperm'⟩
  · exact absurd ht.1 (hnone t hmem)
  · exact ⟨heap', _, e, hi', ht.turn hmem hperm hperm'⟩

end TimerRun

open TimerRun

namespace TimerCall

variable {script : Nat → List (TimerOp C)} {c c' : TimerCall C} {op : TimerOp C}
  {left : List (List (TimerOp C))} {last latest now : Timestamp} {base kept : List Timestamp}

/-- Every callback that is being executed belongs to a call of `checkTimeout`, and has only
such calls to make as may be made. -/
structure Going (last : Timestamp) (base : List Timestamp) (c : TimerCall C) : Prop where
  inside : ∃ inner, Inside last base c.run inner ∧ inner.length = c.todo.length
  todo : ∀ ops ∈ c.todo, ∀ op ∈ ops, op.RemovesOrChecks last

/-- The calls that callbacks have still to make, and their returns. -/
def pending (todo : List (List (TimerOp C))) : Nat := (todo.map (·.length + 1)).sum

theorem perform_going (hscript : ∀ k, ∀ op ∈ script k, op.RemovesOrChecks last)
    (hstep : ∃ s' f, c.run.step op = some (s', f) ∧ Moved last base c.run s' f kept)
    (hkept : kept.length = left.length)
    (hleft : ∀ ops ∈ left, ∀ op ∈ ops, op.RemovesOrChecks last) :
    ∃ c', c.perform script op left = some c' ∧ Going last base c' ∧
      (remaining last c'.run.heap < remaining last c.run.heap ∨
        remaining last c'.run.heap ≤ remaining last c.run.heap ∧ c'.todo = left) := by
  obtain ⟨s', f, e, hmoved⟩ := hstep
  rcases hmoved with ⟨rfl, hle, hin⟩ | ⟨firing, now, rfl, hlt, hin⟩
  · have e' : c.perform script op left = some { c with run := s', todo := left } := by
      rw [perform, e]
      rfl
    exact ⟨_, e', ⟨⟨kept, hin, hkept⟩, hleft⟩, .inr ⟨hle, rfl⟩⟩
  · have e' : c.perform script op left =
        some ⟨s', script c.invoked :: left, c.invoked + 1⟩ := by
      rw [perform, e]
      rfl
    refine ⟨_, e', ⟨⟨now :: kept, hin, congrArg (· + 1) hkept⟩, fun ops hmem => ?_⟩, .inl hlt⟩
    rcases List.mem_cons.mp hmem with rfl | hmem
    · exact hscript c.invoked
    · exact hleft ops hmem

/-- A step leaves less to fire, or as much and less for the callbacks to do. -/
theorem step_going (hscript : ∀ k, ∀ op ∈ script k, op.RemovesOrChecks last)
    (hgoing : Going last base c) (hne : c.todo ≠ []) :
    ∃ c', c.step script = some c' ∧ Going last base c' ∧
      (remaining last c'.run.heap < remaining last c.run.heap ∨
        remaining last c'.run.heap ≤ remaining last c.run.heap ∧
          pending c'.todo < pending c.todo) := by
  obtain ⟨⟨inner, hin, hlength⟩, htodo⟩ := hgoing
  rcases htop : c.todo with _ | ⟨ops, left⟩
  · exact absurd htop hne
  rw [htop] at hlength htodo
  have hleft : ∀ ops ∈ left, ∀ op ∈ ops, op.RemovesOrChecks last := fun ops hmem =>
    htodo ops (List.mem_cons_of_mem _ hmem)
  cases ops with
  | nil =>
    cases inner with
    | nil => cases hlength
    | cons now rest =>
      obtain ⟨c', e, hgoing', hless⟩ := perform_going hscript hin.step_return
        (Nat.succ.inj hlength) hleft
      refine ⟨c', by rw [step, htop]; exact e, hgoing', hless.imp_right fun h => ⟨h.1, ?_⟩⟩
      rw [h.2]
      simp [pending]
  | cons op ops =>
    have hcall := hin.step_call (htodo _ (List.mem_cons_self ..) op (List.mem_cons_self ..))
    have hstay : ∀ ops' ∈ ops :: left, ∀ op ∈ ops', op.RemovesOrChecks last := by
      intro ops' hmem op' hop'
      rcases List.mem_cons.mp hmem with rfl | hmem
      · exact htodo _ (List.mem_cons_self ..) op' (List.mem_cons_of_mem _ hop')
      · exact hleft ops' hmem op' hop'
    have hlength' : inner.length = (ops :: left).length := hlength
    obtain ⟨c', e, hgoing', hless⟩ := perform_going hscript hcall hlength' hstay
    refine ⟨c', by rw [step, htop]; exact e, hgoing', hless.imp_right fun h => ⟨h.1, ?_⟩⟩
    rw [h.2]
    simp [pending]

/-- The call returns: each step leaves less to fire, or as much and less to do. -/
theorem Going.returns {c : TimerCall C}
    (hscript : ∀ k, ∀ op ∈ script k, op.RemovesOrChecks last) (hgoing : Going last base c) :
    ∃ n c', c.steps script n = some c' ∧ c'.todo = [] ∧ c'.run.calls = base := by
  by_cases hne : c.todo = []
  · obtain ⟨inner, hin, hlength⟩ := hgoing.inside
    rw [hne] at hlength
    have hcalls := hin.calls
    rw [List.eq_nil_of_length_eq_zero hlength] at hcalls
    exact ⟨0, c, rfl, hne, hcalls⟩
  · obtain ⟨c₁, e₁, hgoing₁, hless⟩ := step_going hscript hgoing hne
    obtain ⟨n, c₂, e₂, hdone⟩ := hgoing₁.returns hscript
    refine ⟨n + 1, c₂, ?_, hdone⟩
    rw [steps, e₁]
    exact e₂
termination_by (remaining last c.run.heap, pending c.todo)
decreasing_by
  simp only [Prod.lex_def]
  omega

/-- The innermost loop has a stuck timer, and no callback has anything to do any more. -/
structure Spinning (script : Nat → List (TimerOp C)) (c : TimerCall C) : Prop where
  todo : ∃ left, c.todo = [] :: left
  idle : ∀ k, c.invoked ≤ k → script k = []
  inv : c.run.heap.Inv
  stuck : ∃ now calls, c.run.calls = now :: calls ∧ ∃ t ∈ c.run.heap.entries, Stuck now t

theorem Spinning.step (hspin : Spinning script c) :
    ∃ c', c.step script = some c' ∧ Spinning script c' := by
  obtain ⟨left, htodo⟩ := hspin.todo
  obtain ⟨now, calls, hcalls, hstuck⟩ := hspin.stuck
  obtain ⟨heap', f, e, hi', hstuck'⟩ := resume_stuck calls hspin.inv hstuck
  have e₁ : c.run.step .callbackReturn = some (⟨heap', now :: calls⟩, some f) := by
    rw [TimerRun.step, hcalls]
    exact e
  have e₂ : c.step script =
      some ⟨⟨heap', now :: calls⟩, script c.invoked :: left, c.invoked + 1⟩ := by
    rw [TimerCall.step, htodo]
    show c.perform script .callbackReturn left = _
    rw [perform, e₁]
    rfl
  refine ⟨_, e₂, ⟨left, ?_⟩, fun k hk => hspin.idle k (Nat.le_of_succ_le hk), hi',
    now, calls, rfl, hstuck'⟩
  rw [hspin.idle c.invoked le_rfl]

theorem Spinning.steps (hspin : Spinning script c) (n : Nat) :
    ∃ c', c.steps script n = some c' ∧ c'.todo ≠ [] := by
  induction n generalizing c with
  | zero =>
    obtain ⟨left, htodo⟩ := hspin.todo
    exact ⟨c, rfl, htodo ▸ List.cons_ne_nil _ _⟩
  | succ n ih =>
    obtain ⟨c₁, e₁, hspin₁⟩ := hspin.step
    obtain ⟨c₂, e₂, hne⟩ := ih hspin₁
    refine ⟨c₂, ?_, hne⟩
    rw [TimerCall.steps, e₁]
    exact e₂

end TimerCall

open TimerCall

namespace TimerRun

variable {s : TimerRun C} {now latest last : Timestamp}

end TimerRun

end Brickred
