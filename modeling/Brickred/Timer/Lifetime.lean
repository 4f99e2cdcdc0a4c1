import Brickred.Lib.Transition
import Brickred.Timer.Lookup
import Brickred.Timer.Runs

/-!
# The lifetime of a timer

An id stands for one timer from the `addTimer` that returns it until the next one that
does; the allocator wraps around, and `addTimer` takes an id again only when it is free.
Between the two, what has happened to the timer tells whether it is in the heap and how
many calls it has left.
-/

namespace Brickred

open Transition

/-- What is seen of a run: the id that `addTimer` returns, which is -1 if it adds no
timer, the calls of `removeTimer`, and the callbacks that begin. -/
inductive TimerEvent (C : Type) where
  | added (id : Int) (timerCb : C) (callTimes : Int)
  | removed (id : Int)
  | fired (id : Int) (timerCb : C)

namespace TimerRun

variable {C : Type} {s s' : TimerRun C} {e : Option (TimerEvent C)} {id k : Int} {cb : C}
  {l before after : List (Option (TimerEvent C))}

/-- What a step shows, which invokes `firing`. -/
def event (s : TimerRun C) (firing : Option (TimerHeap.Firing C)) :
    TimerOp C → Option (TimerEvent C)
  | .addTimer now timeoutMs timerCb callTimes =>
    (s.heap.addTimer now timeoutMs timerCb callTimes).map fun r => .added r.2 timerCb callTimes
  | .removeTimer id => some (.removed id)
  | .checkTimeout _ | .callbackReturn => firing.map fun f => .fired f.timerId f.timerCb

/-- A step, labelled with what it shows. -/
def Step (s : TimerRun C) (e : Option (TimerEvent C)) (s' : TimerRun C) : Prop :=
  ∃ op firing, s.step op = some (s', firing) ∧ e = s.event firing op

/-! ## What a step does to the timers -/

/-- How the timers by id change with what a step shows. -/
inductive Change (find? : Int → Option (Timer C)) :
    Option (TimerEvent C) → (Int → Option (Timer C)) → Prop where
  | nothing : Change find? none find?
  | refused {cb : C} {k : Int} : Change find? (some (.added (-1) cb k)) find?
  | added {id : Int} {t : Timer C} :
      Change find? (some (.added id t.timerCb t.callTimes)) (Function.update find? id (some t))
  | removed {id : Int} : Change find? (some (.removed id)) (Function.update find? id none)
  | fired {id : Int} {t : Timer C} (ht : find? id = some t) :
      Change find? (some (.fired id t.timerCb))
        (Function.update find? id (if t.callTimes = 1 then none else some t.next))

theorem resume_change {heap : TimerHeap C} (hw : heap.Wf) {now : Timestamp}
    {calls : List Timestamp} {firing : Option (TimerHeap.Firing C)}
    (h : resume heap now calls = some (s', firing)) :
    s'.heap.Wf ∧ Change heap.find? (firing.map fun f => .fired f.timerId f.timerCb)
      s'.heap.find? := by
  rcases hw.checkTimeout now with hnone | ⟨heap', t, hfire, hw', ht, -, hfind⟩
  · rw [resume, hnone] at h
    cases h
    exact ⟨hw, .nothing⟩
  · rw [resume, hfire] at h
    cases h
    refine ⟨hw', ?_⟩
    show Change heap.find? _ heap'.find?
    rw [hfind]
    exact .fired ht

theorem Step.change (hw : s.heap.Wf) (h : Step s e s') :
    s'.heap.Wf ∧ Change s.heap.find? e s'.heap.find? := by
  obtain ⟨op, firing, hstep, rfl⟩ := h
  cases op with
  | addTimer now timeoutMs timerCb callTimes =>
    obtain ⟨heap, r, hadd, hw', -, hcase⟩ := hw.addTimer now timeoutMs timerCb callTimes
    simp only [step, hadd, Option.bind_eq_bind, Option.bind_some, Option.some.injEq,
      Prod.mk.injEq] at hstep
    obtain ⟨rfl, -⟩ := hstep
    refine ⟨hw', ?_⟩
    simp only [event, hadd, Option.map_some]
    split at hcase
    · obtain ⟨rfl, hfind⟩ := hcase
      rw [hfind]
      exact .added (t := TimerHeap.newTimer _ now timeoutMs timerCb callTimes)
    · obtain ⟨rfl, hfind⟩ := hcase
      rw [hfind]
      exact .refused
  | removeTimer id =>
    obtain ⟨heap, hremove, hw', -, hfind⟩ := hw.removeTimer id
    simp only [step, hremove, Option.bind_eq_bind, Option.bind_some, Option.some.injEq,
      Prod.mk.injEq] at hstep
    obtain ⟨rfl, -⟩ := hstep
    refine ⟨hw', ?_⟩
    show Change _ (some (.removed id)) heap.find?
    rw [hfind]
    exact .removed
  | checkTimeout now => exact resume_change hw hstep
  | callbackReturn =>
    rw [step] at hstep
    split at hstep
    · cases hstep
      exact ⟨hw, .nothing⟩
    · exact resume_change hw hstep

/-! ## What is known of one timer -/

variable {find? find?' : Int → Option (Timer C)}

/-- The event is a call of the timer's callback. -/
def isFiring (id : Int) : Option (TimerEvent C) → Bool
  | some (.fired id' _) => id' = id
  | _ => false

/-- The number of calls of the timer's callback. -/
def fires (id : Int) (l : List (Option (TimerEvent C))) : Nat := l.countP (isFiring id)

theorem fires_append (l₁ l₂ : List (Option (TimerEvent C))) :
    fires id (l₁ ++ l₂) = fires id l₁ + fires id l₂ :=
  List.countP_append

theorem fires_single_of_not (h : isFiring id e = false) : fires id [e] = 0 := by
  simp [fires, h]

/-- What has happened since a timer was added with `callTimes = k`, and the timer that its
id now stands for. -/
structure Lifetime (id : Int) (cb : C) (k : Int) (l : List (Option (TimerEvent C)))
    (find? : Int → Option (Timer C)) : Prop where
  calls : 0 < k → (fires id l : Int) ≤ k
  removed : some (.removed id) ∈ l → find? id = none
  done : 0 < k → (fires id l : Int) = k → find? id = none
  alive : some (.removed id) ∉ l → (0 < k → (fires id l : Int) < k) →
    ∃ t, find? id = some t ∧ t.timerCb = cb ∧
      t.callTimes = if 0 < k then k - (fires id l : Int) else k
  callback : ∀ cb', some (.fired id cb') ∈ l → cb' = cb
  quiet : ∀ l₁ l₂, l = l₁ ++ some (.removed id) :: l₂ → fires id l₂ = 0

theorem Lifetime.start {t : Timer C} (ht : find? id = some t) :
    Lifetime id t.timerCb t.callTimes [] find? where
  calls h := by simpa [fires] using h.le
  removed h := by simp at h
  done h hk := by simp [fires] at hk; omega
  alive _ _ := ⟨t, ht, rfl, by simp [fires]⟩
  callback _ h := by simp at h
  quiet l₁ l₂ h := by simp at h

/-- An event that is no call of the timer's callback and leaves the timer as it is. -/
theorem Lifetime.other (h : Lifetime id cb k l find?) (hsame : find?' id = find? id)
    (hfire : isFiring id e = false) (hremove : e ≠ some (.removed id)) :
    Lifetime id cb k (l ++ [e]) find?' := by
  have hcount : fires id (l ++ [e]) = fires id l := by
    rw [fires_append, fires_single_of_not hfire, Nat.add_zero]
  have hmem : some (.removed id) ∈ l ++ [e] ↔ some (.removed id) ∈ l := by
    simp [hremove.symm]
  refine ⟨?_, ?_, ?_, ?_, ?_, ?_⟩
  · rw [hcount]
    exact h.calls
  · rw [hmem, hsame]
    exact h.removed
  · rw [hcount, hsame]
    exact h.done
  · rw [hcount, hmem, hsame]
    exact h.alive
  · intro cb' hcb
    rcases List.mem_append.mp hcb with hcb | hcb
    · exact h.callback cb' hcb
    · obtain rfl := List.mem_singleton.mp hcb
      simp [isFiring] at hfire
  · intro l₁ l₂ hl
    rcases append_single_eq hl with ⟨-, -, he⟩ | ⟨l₃, rfl, hcut⟩
    · exact absurd he hremove
    · rw [fires_append, h.quiet l₁ l₃ hcut, fires_single_of_not hfire]

theorem Lifetime.remove (h : Lifetime id cb k l find?) (hnone : find?' id = none) :
    Lifetime id cb k (l ++ [some (.removed id)]) find?' := by
  have hfire : isFiring id (some (.removed id) : Option (TimerEvent C)) = false := rfl
  have hcount : fires id (l ++ [some (.removed id)]) = fires id l := by
    rw [fires_append, fires_single_of_not hfire, Nat.add_zero]
  refine ⟨?_, fun _ => hnone, fun _ _ => hnone, fun hnot => by simp at hnot, ?_, ?_⟩
  · rw [hcount]
    exact h.calls
  · intro cb' hcb
    exact h.callback cb' (by simpa using hcb)
  · intro l₁ l₂ hl
    rcases append_single_eq hl with ⟨rfl, -, -⟩ | ⟨l₃, rfl, hcut⟩
    · rfl
    · rw [fires_append, h.quiet l₁ l₃ hcut, fires_single_of_not hfire]

/-- A call of the callback: the timer is there, and has a call left. -/
theorem Lifetime.fire (h : Lifetime id cb k l find?) {t : Timer C} (ht : find? id = some t)
    (hnext : find?' id = if t.callTimes = 1 then none else some t.next) :
    Lifetime id cb k (l ++ [some (.fired id t.timerCb)]) find?' := by
  have hstay : some (.removed id) ∉ l := by
    intro hmem
    rw [h.removed hmem] at ht
    cases ht
  have hleft : 0 < k → (fires id l : Int) < k := by
    intro hk
    refine lt_of_le_of_ne (h.calls hk) fun heq => ?_
    rw [h.done hk heq] at ht
    cases ht
  obtain ⟨u, hu, hcb, htimes⟩ := h.alive hstay hleft
  obtain rfl : t = u := Option.some.inj (ht.symm.trans hu)
  have hcount : (fires id (l ++ [some (.fired id t.timerCb)]) : Int) = fires id l + 1 := by
    rw [fires_append]
    simp [fires, isFiring]
  have hstay' : some (.removed id) ∉ l ++ [some (.fired id t.timerCb)] := by
    simpa using hstay
  refine ⟨?_, fun hmem => absurd hmem hstay', ?_, ?_, ?_, ?_⟩
  · intro hk
    have hlt := hleft hk
    omega
  · intro hk hlast
    rw [if_pos hk] at htimes
    rw [hnext, if_pos (by omega)]
  · intro _ hmore
    have hne : t.callTimes ≠ 1 := by
      split at htimes
      next hk =>
        have hlt := hmore hk
        omega
      · omega
    refine ⟨t.next, by rw [hnext, if_neg hne], hcb, ?_⟩
    simp only [Timer.next, hcount, htimes]
    by_cases hk : 0 < k
    · have hlt := hleft hk
      rw [if_pos hk, if_pos (by omega), if_pos hk]
      omega
    · rw [if_neg hk, if_neg hk, if_neg hk]
  · intro cb' hmem
    rcases List.mem_append.mp hmem with hmem | hmem
    · exact h.callback cb' hmem
    · have heq := List.mem_singleton.mp hmem
      simp only [Option.some.injEq, TimerEvent.fired.injEq, true_and] at heq
      exact heq.trans hcb
  · intro l₁ l₂ hl
    rcases append_single_eq hl with ⟨-, -, he⟩ | ⟨l₃, -, hcut⟩
    · cases he
    · exact absurd (hcut ▸ by simp) hstay

theorem Lifetime.step (h : Lifetime id cb k l find?) (hchange : Change find? e find?')
    (hreuse : ∀ cb' k', e ≠ some (.added id cb' k')) : Lifetime id cb k (l ++ [e]) find?' := by
  cases hchange with
  | nothing => exact h.other rfl rfl (by simp)
  | refused => exact h.other rfl rfl (by simp)
  | @added id' t =>
    have hne : id ≠ id' := by
      rintro rfl
      exact hreuse _ _ rfl
    exact h.other (Function.update_of_ne hne ..) rfl (by simp)
  | @removed id' =>
    by_cases hne : id = id'
    · subst hne
      exact h.remove (Function.update_self ..)
    · exact h.other (Function.update_of_ne hne ..) rfl (by simpa using Ne.symm hne)
  | @fired id' t ht =>
    by_cases hne : id = id'
    · subst hne
      exact h.fire ht (Function.update_self ..)
    · exact h.other (Function.update_of_ne hne ..) (by simpa [isFiring] using Ne.symm hne) (by simp)

/-! ## Every timer of every run -/

theorem wf_of_run (hrun : Run Step init l s) : s.heap.Wf :=
  hrun.invariant (I := fun s : TimerRun C => s.heap.Wf) (fun hw hstep => (hstep.change hw).1)
    TimerHeap.wf_init

theorem lifetime_of_run (hrun : Run Step init (before ++ some (.added id cb k) :: after) s)
    (hid : id ≠ -1) (hreuse : ∀ cb' k', some (.added id cb' k') ∉ after) :
    Lifetime id cb k after s.heap.find? := by
  obtain ⟨s₁, hbefore, hafter⟩ := hrun.split
  have hw₁ := wf_of_run hbefore
  cases hafter with
  | @cons _ _ s₂ _ _ hadd hafter =>
    obtain ⟨hw₂, hchange⟩ := hadd.change hw₁
    have hfresh : ∃ t, s₂.heap.find? id = some t ∧ t.timerCb = cb ∧ t.callTimes = k := by
      generalize hf : s₂.heap.find? = f at hchange
      cases hchange with
      | refused => exact absurd rfl hid
      | added => exact ⟨_, Function.update_self .., rfl, rfl⟩
    obtain ⟨t, ht, rfl, rfl⟩ := hfresh
    have hguarded := hafter.guarded
      (fun e => ∀ cb' k', e ≠ some (TimerEvent.added id cb' k'))
      (fun e he cb' k' heq => hreuse cb' k' (heq ▸ he))
    refine (hguarded.history
      (I := fun l (s : TimerRun C) =>
        s.heap.Wf ∧ Lifetime id t.timerCb t.callTimes l s.heap.find?) ?_
      ⟨hw₂, Lifetime.start ht⟩).2
    rintro l s e s' ⟨hw, hl⟩ ⟨hguard, hstep⟩
    obtain ⟨hw', hchange'⟩ := hstep.change hw
    exact ⟨hw', hl.step hchange' hguard⟩

/-- From the `addTimer` that returns `id` on, for as long as no other does, and whatever is
called on the heap, from inside callbacks or not: a timer with `k > 0` calls fires at most
`k` times and, unless it is removed, is in the heap until the `k`-th call begins and not
after; one without a limit stays until it is removed; and once `removeTimer` has been
called with the id it does not fire any more. -/
theorem timer_lifetime (hrun : Run Step init (before ++ some (.added id cb k) :: after) s)
    (hid : id ≠ -1) (hreuse : ∀ cb' k', some (.added id cb' k') ∉ after) :
    (0 < k → (fires id after : Int) ≤ k ∧
      (some (.removed id) ∉ after → (s.heap.timers id = none ↔ (fires id after : Int) = k))) ∧
    (k ≤ 0 → some (.removed id) ∉ after → s.heap.timers id ≠ none) ∧
    (∀ l₁ l₂, after = l₁ ++ some (.removed id) :: l₂ →
      s.heap.timers id = none ∧ fires id l₂ = 0) ∧
    ∀ cb', some (.fired id cb') ∈ after → cb' = cb := by
  have hl := lifetime_of_run hrun hid hreuse
  have hin : s.heap.timers id = none ↔ s.heap.find? id = none :=
    (wf_of_run hrun).inv.timers_eq_none
  refine ⟨fun hk => ⟨hl.calls hk, fun hstay => ?_⟩, fun hk hstay => ?_, ?_, hl.callback⟩
  · rw [hin]
    refine ⟨fun hnone => ?_, hl.done hk⟩
    by_contra hne
    obtain ⟨t, ht, -⟩ := hl.alive hstay fun _ => lt_of_le_of_ne (hl.calls hk) hne
    rw [hnone] at ht
    cases ht
  · rw [ne_eq, hin]
    obtain ⟨t, ht, -⟩ := hl.alive hstay fun hpos => absurd hpos (not_lt.mpr hk)
    simp [ht]
  · intro l₁ l₂ hafter
    exact ⟨hin.mpr (hl.removed (by simp [hafter])), hl.quiet l₁ l₂ hafter⟩

/-- A timer with two calls, of which the second comes in the same `checkTimeout`. -/
theorem timer_lifetime_twice : ∃ s : TimerRun Unit,
    Run Step init ([] ++ some (.added 1 () 2) :: [some (.fired 1 ()), some (.fired 1 ())]) s ∧
      s.calls.length = 1 ∧ s.heap.timers 1 = none := by
  obtain ⟨s, hrun, hcalls⟩ : ∃ s : TimerRun Unit,
      Run Step init ([] ++ some (.added 1 () 2) :: [some (.fired 1 ()), some (.fired 1 ())]) s ∧
        s.calls.length = 1 :=
    ⟨_, .cons ⟨.addTimer .zero 0 () 2, _, rfl, rfl⟩ <|
      .cons ⟨.checkTimeout .zero, _, rfl, rfl⟩ <|
      .cons ⟨.callbackReturn, _, rfl, rfl⟩ .nil, rfl⟩
  obtain ⟨hlimited, -⟩ := timer_lifetime hrun (by decide) (by simp)
  exact ⟨s, hrun, hcalls, ((hlimited (by decide)).2 (by simp)).mpr rfl⟩

end TimerRun

end Brickred
