import Brickred.Timer.Lifetime
import Brickred.Timer.Termination

/-!
# The deadlines of a repeating timer

`addTimer` computes the first deadline from the 64-bit period, `checkTimeout` the later
ones from what `Timer::getTimeout` returns, which is an `int`. They are the multiples of
one period as long as the period fits into an `int`.
-/

namespace Brickred

open Transition

namespace TimerRun

variable {C : Type} {s s' : TimerRun C} {id : Int} {cb : C}

/-- A step: what is called, what it shows, and the callback it invokes. -/
structure Move (C : Type) where
  op : TimerOp C
  event : Option (TimerEvent C)
  firing : Option (TimerHeap.Firing C)

def Moves (s : TimerRun C) (m : Move C) (s' : TimerRun C) : Prop :=
  s.step m.op = some (s', m.firing) ∧ m.event = s.event m.firing m.op

/-- The deadlines at which a timer's callback is invoked, in order. -/
def deadlines (id : Int) (l : List (Move C)) : List Timestamp :=
  (l.filterMap Move.firing).filterMap fun f => if f.timerId = id then some f.deadline else none

/-- From the `addTimer` that returns an id on, for as long as no other does, the deadlines
are `now` and the multiples of the period. -/
def DeadlineLaw (C : Type) (now : Timestamp) (timeoutMs callTimes : Int) : Prop :=
  ∀ {before after : List (Move C)} {s : TimerRun C} {id : Int} {cb : C},
    Run Moves init (before ++
      ⟨.addTimer now timeoutMs cb callTimes, some (.added id cb callTimes), none⟩ :: after) s →
    id ≠ -1 → (∀ cb' k', some (.added id cb' k') ∉ after.map Move.event) →
    ∀ (j : Nat) (d : Timestamp), (deadlines id after)[j]? = some d →
      d = now.add ((j + 1) * max 0 timeoutMs)

variable {m : Move C} {before after l : List (Move C)} {now : Timestamp}

/-! ## What a step does to the timers -/

/-- A step invokes the callback of a timer that is there, and deletes the timer or moves it
to its next deadline; or it invokes none, and every timer that is there behind it either was
there or has been added. -/
inductive Firings (find? : Int → Option (Timer C)) (m : Move C)
    (find?' : Int → Option (Timer C)) : Prop where
  | fired {t} (hm : m.firing = some ⟨t.id, t.timerCb, t.timestamp⟩) (ht : find? t.id = some t)
      (hfind : find?' = Function.update find? t.id (if t.callTimes = 1 then none else some t.next))
  | silent (hm : m.firing = none)
      (hfind : ∀ id t, find?' id = some t →
        find? id = some t ∨ ∃ cb k, m.event = some (.added id cb k))

theorem resume_firings {heap : TimerHeap C} (hw : heap.Wf) {calls : List Timestamp}
    (h : resume heap now calls = some (s', m.firing)) :
    s'.heap.Wf ∧ Firings heap.find? m s'.heap.find? := by
  rcases hw.checkTimeout now with hnone | ⟨heap', t, hfire, hw', ht, -, hfind⟩
  · rw [resume, hnone] at h
    injection h with h
    obtain ⟨rfl, hm⟩ := Prod.mk.inj h
    exact ⟨hw, .silent hm.symm fun _ _ hold => .inl hold⟩
  · rw [resume, hfire] at h
    injection h with h
    obtain ⟨rfl, hm⟩ := Prod.mk.inj h
    exact ⟨hw', .fired hm.symm ht hfind⟩

theorem Moves.firings (hw : s.heap.Wf) (h : Moves s m s') :
    s'.heap.Wf ∧ Firings s.heap.find? m s'.heap.find? := by
  obtain ⟨op, ev, firing⟩ := m
  obtain ⟨hstep, hevent⟩ := h
  cases op with
  | addTimer now timeoutMs timerCb callTimes =>
    obtain ⟨heap, r, hadd, hw', -, hcase⟩ := hw.addTimer now timeoutMs timerCb callTimes
    simp only [step, hadd, Option.bind_eq_bind, Option.bind_some, Option.some.injEq,
      Prod.mk.injEq] at hstep
    obtain ⟨rfl, rfl⟩ := hstep
    replace hevent : ev = event s none (.addTimer now timeoutMs timerCb callTimes) := hevent
    rw [event, hadd, Option.map_some] at hevent
    refine ⟨hw', .silent rfl fun id t hnew => ?_⟩
    replace hnew : heap.find? id = some t := hnew
    split at hcase
    · obtain ⟨rfl, hfind⟩ := hcase
      rw [hfind] at hnew
      by_cases hid : id = s.heap.getId.2
      · exact .inr ⟨timerCb, callTimes, by rw [hid]; exact hevent⟩
      · rw [Function.update_of_ne hid] at hnew
        exact .inl hnew
    · rw [hcase.2] at hnew
      exact .inl hnew
  | removeTimer id =>
    obtain ⟨heap, hremove, hw', -, hfind⟩ := hw.removeTimer id
    simp only [step, hremove, Option.bind_eq_bind, Option.bind_some, Option.some.injEq,
      Prod.mk.injEq] at hstep
    obtain ⟨rfl, rfl⟩ := hstep
    refine ⟨hw', .silent rfl fun id' t hold => .inl ?_⟩
    replace hold : heap.find? id' = some t := hold
    rw [hfind] at hold
    by_cases hid : id' = id
    · rw [hid, Function.update_self] at hold
      cases hold
    · rwa [Function.update_of_ne hid] at hold
  | checkTimeout now => exact resume_firings hw hstep
  | callbackReturn =>
    replace hstep : step s .callbackReturn = some (s', firing) := hstep
    rw [step] at hstep
    split at hstep
    · injection hstep with hstep
      obtain ⟨rfl, hm⟩ := Prod.mk.inj hstep
      exact ⟨hw, .silent hm.symm fun _ _ hold => .inl hold⟩
    · exact resume_firings hw hstep

theorem wf_of_moves (hrun : Run Moves init l s) : s.heap.Wf :=
  hrun.invariant (I := fun s : TimerRun C => s.heap.Wf) (fun hw hstep => (hstep.firings hw).1)
    TimerHeap.wf_init

/-! ## One timer -/

/-- What a timer's calls so far and the timer itself say of its deadlines: the first is
`first`, and each later one `period` milliseconds after the one before. -/
structure Periodic (id : Int) (first : Timestamp) (period : Int) (l : List (Move C))
    (find? : Int → Option (Timer C)) : Prop where
  past : ∀ (j : Nat) (d : Timestamp), (deadlines id l)[j]? = some d → d = first.add (j * period)
  next : ∀ t, find? id = some t → t.getTimeout = period ∧
    t.timestamp = first.add ((deadlines id l).length * period)

theorem deadlines_append (l₁ l₂ : List (Move C)) :
    deadlines id (l₁ ++ l₂) = deadlines id l₁ ++ deadlines id l₂ := by
  unfold deadlines
  rw [List.filterMap_append, List.filterMap_append]

variable {first : Timestamp} {period : Int} {find? find?' : Int → Option (Timer C)}

/-- A step that does not fire the timer. -/
theorem Periodic.other (h : Periodic id first period l find?) (hm : deadlines id [m] = [])
    (hfind : ∀ t, find?' id = some t → find? id = some t) :
    Periodic id first period (l ++ [m]) find?' := by
  constructor
  · rw [deadlines_append, hm, List.append_nil]
    exact h.past
  · rw [deadlines_append, hm, List.append_nil]
    exact fun t ht => h.next t (hfind t ht)

/-- A step that fires the timer. -/
theorem Periodic.fire (h : Periodic id first period l find?) {t : Timer C}
    (ht : find? id = some t) (hm : deadlines id [m] = [t.timestamp])
    (hfind : find?' id = if t.callTimes = 1 then none else some t.next) :
    Periodic id first period (l ++ [m]) find?' := by
  obtain ⟨hperiod, hlast⟩ := h.next t ht
  constructor
  · intro j d hd
    rw [deadlines_append, hm, List.getElem?_append] at hd
    split at hd
    · exact h.past j d hd
    next hj =>
      obtain ⟨hzero, rfl⟩ : j - (deadlines id l).length = 0 ∧ t.timestamp = d := by
        cases hn : j - (deadlines id l).length with
        | zero =>
          rw [hn] at hd
          exact ⟨rfl, by simpa using hd⟩
        | succ n =>
          rw [hn] at hd
          simp at hd
      rw [hlast, show j = (deadlines id l).length by omega]
  · intro u hu
    rw [hfind] at hu
    split at hu
    · cases hu
    · cases hu
      refine ⟨hperiod, ?_⟩
      show t.timestamp.add t.getTimeout = _
      rw [hperiod, hlast, Timestamp.add_add, deadlines_append, hm, List.length_append,
        List.length_singleton, Int.natCast_succ, Int.add_mul, Int.one_mul]

theorem Periodic.step (h : Periodic id first period l find?) (hf : Firings find? m find?')
    (hreuse : ∀ cb' k', m.event ≠ some (.added id cb' k')) :
    Periodic id first period (l ++ [m]) find?' := by
  cases hf with
  | silent hm hfind =>
    refine h.other (by simp [deadlines, hm]) fun t ht => ?_
    rcases hfind id t ht with hold | ⟨cb, k, hadded⟩
    · exact hold
    · exact absurd hadded (hreuse cb k)
  | @fired t hm ht hfind =>
    by_cases hid : t.id = id
    · subst hid
      exact h.fire ht (by simp [deadlines, hm]) (by rw [hfind, Function.update_self])
    · refine h.other (by simp [deadlines, hm, hid]) fun u hu => ?_
      rwa [hfind, Function.update_of_ne (Ne.symm hid)] at hu

/-- A timer with one call has made it and is gone, or is there to make it. -/
def Single (id : Int) (l : List (Move C)) (find? : Int → Option (Timer C)) : Prop :=
  deadlines id l = [] ∧ (∀ t, find? id = some t → t.callTimes = 1) ∨
    (deadlines id l).length = 1 ∧ find? id = none

theorem Single.step (h : Single id l find?) (hf : Firings find? m find?')
    (hreuse : ∀ cb' k', m.event ≠ some (.added id cb' k')) : Single id (l ++ [m]) find?' := by
  have hother : deadlines id [m] = [] → (∀ t, find?' id = some t → find? id = some t) →
      Single id (l ++ [m]) find?' := by
    intro hm hfind
    rw [Single, deadlines_append, hm, List.append_nil]
    rcases h with ⟨hnil, hcalls⟩ | ⟨hlen, hnone⟩
    · exact .inl ⟨hnil, fun t ht => hcalls t (hfind t ht)⟩
    · refine .inr ⟨hlen, Option.eq_none_iff_forall_ne_some.mpr fun t ht => ?_⟩
      have hold := hfind t ht
      rw [hnone] at hold
      cases hold
  cases hf with
  | silent hm hfind =>
    refine hother (by simp [deadlines, hm]) fun t ht => ?_
    rcases hfind id t ht with hold | ⟨cb, k, hadded⟩
    · exact hold
    · exact absurd hadded (hreuse cb k)
  | @fired t hm ht hfind =>
    by_cases hid : t.id = id
    · subst hid
      rcases h with ⟨hnil, hcalls⟩ | ⟨-, hnone⟩
      · refine .inr ⟨?_, ?_⟩
        · rw [deadlines_append, hnil]
          simp [deadlines, hm]
        · rw [hfind, Function.update_self, if_pos (hcalls t ht)]
      · rw [hnone] at ht
        cases ht
    · refine hother (by simp [deadlines, hm, hid]) fun u hu => ?_
      rwa [hfind, Function.update_of_ne (Ne.symm hid)] at hu

/-! ## A timer of a run -/

/-- What holds of a timer that has been added, and is kept by every step that does not add
another with its id, holds in every run. -/
theorem history_of_run {timeoutMs callTimes : Int}
    {J : List (Move C) → (Int → Option (Timer C)) → Prop}
    (hstart : ∀ find?, find? id = some (TimerHeap.newTimer id now timeoutMs cb callTimes) →
      J [] find?)
    (hkeep : ∀ l m find? find?', J l find? → Firings find? m find?' →
      (∀ cb' k', m.event ≠ some (.added id cb' k')) → J (l ++ [m]) find?')
    (hrun : Run Moves init (before ++
      ⟨.addTimer now timeoutMs cb callTimes, some (.added id cb callTimes), none⟩ :: after) s)
    (hid : id ≠ -1) (hreuse : ∀ cb' k', some (.added id cb' k') ∉ after.map Move.event) :
    J after s.heap.find? := by
  obtain ⟨s₁, hbefore, hafter⟩ := hrun.split
  have hw₁ := wf_of_moves hbefore
  cases hafter with
  | @cons _ _ s₂ _ _ hmove hafter =>
    have hw₂ := (hmove.firings hw₁).1
    obtain ⟨hstep, hevent⟩ := hmove
    obtain ⟨heap, r, hadd, -, -, hcase⟩ := hw₁.addTimer now timeoutMs cb callTimes
    replace hevent : some (.added id cb callTimes) =
        event s₁ none (.addTimer now timeoutMs cb callTimes) := hevent
    rw [event, hadd, Option.map_some] at hevent
    obtain rfl : id = r := by
      injection hevent with hevent
      injection hevent
    simp only [step, hadd, Option.bind_eq_bind, Option.bind_some, Option.some.injEq,
      Prod.mk.injEq] at hstep
    obtain ⟨rfl, -⟩ := hstep
    have hfind : heap.find? id = some (TimerHeap.newTimer id now timeoutMs cb callTimes) := by
      split at hcase
      · obtain ⟨rfl, hfind⟩ := hcase
        rw [hfind, Function.update_self]
      · exact absurd hcase.1 hid
    have hguarded := hafter.guarded (fun m => ∀ cb' k', m.event ≠ some (.added id cb' k'))
      (fun m hm cb' k' heq => hreuse cb' k' (heq ▸ List.mem_map_of_mem hm))
    refine (hguarded.history (I := fun l (s : TimerRun C) => s.heap.Wf ∧ J l s.heap.find?) ?_
      ⟨hw₂, hstart _ hfind⟩).2
    rintro l s m s' ⟨hw, hl⟩ ⟨hguard, hmove⟩
    obtain ⟨hw', hf⟩ := hmove.firings hw
    exact ⟨hw', hkeep l m _ _ hl hf hguard⟩

section Added

variable {timeoutMs callTimes : Int} (hrun : Run Moves init (before ++
    ⟨.addTimer now timeoutMs cb callTimes, some (.added id cb callTimes), none⟩ :: after) s)
  (hid : id ≠ -1) (hreuse : ∀ cb' k', some (.added id cb' k') ∉ after.map Move.event)
include hrun hid hreuse

/-- The deadlines of every timer: the period of the later ones is cut to an `int`. -/
theorem periodic_of_run : Periodic id (now.add (max 0 timeoutMs))
    ((max 0 timeoutMs).bmod (2 ^ 32)) after s.heap.find? := by
  refine history_of_run (fun find? hfind => ⟨fun j d hd => ?_, fun t ht => ?_⟩)
    (fun l m find? find?' hl hf hm => hl.step hf hm) hrun hid hreuse
  · simp [deadlines] at hd
  · rw [hfind] at ht
    cases ht
    refine ⟨rfl, ?_⟩
    show now.add _ = (now.add _).add ((0 : Nat) * _)
    rw [Timestamp.add_add]
    congr 1
    omega

theorem single_of_run (hcalls : callTimes = 1) : (deadlines id after).length ≤ 1 := by
  have hsingle : Single id after s.heap.find? := by
    refine history_of_run (fun find? hfind => .inl ⟨rfl, fun t ht => ?_⟩)
      (fun l m find? find?' hl hf hm => hl.step hf hm) hrun hid hreuse
    rw [hfind] at ht
    cases ht
    exact hcalls
  rcases hsingle with ⟨hnil, -⟩ | ⟨hlen, -⟩
  · rw [hnil]
    exact Nat.zero_le 1
  · exact hlen.le

end Added

/-- A timer that has more than one call left is called twice by a `checkTimeout` that
comes late. -/
theorem fires_twice (now : Timestamp) (timeoutMs : Int) (cb : C) {callTimes : Int}
    (hcalls : callTimes ≠ 1) :
    ∃ (s : TimerRun C) (after : List (Move C)), Run Moves init ([] ++
      ⟨.addTimer now timeoutMs cb callTimes, some (.added 1 cb callTimes), none⟩ :: after) s ∧
      (∀ cb' k', some (.added 1 cb' k') ∉ after.map Move.event) ∧
      deadlines 1 after = [now.add (max 0 timeoutMs),
        (now.add (max 0 timeoutMs)).add ((max 0 timeoutMs).bmod (2 ^ 32))] := by
  set t := TimerHeap.newTimer 1 now timeoutMs cb callTimes with ht
  have htime : t.timestamp = now.add (max 0 timeoutMs) := rfl
  have hperiod : t.getTimeout = (max 0 timeoutMs).bmod (2 ^ 32) := rfl
  have hle : (max 0 timeoutMs).bmod (2 ^ 32) ≤ max 0 timeoutMs := by
    rw [Int.bmod_def]
    split <;> omega
  -- late enough for both deadlines
  let late := now.add (2 * max 0 timeoutMs)
  have hlate : late.millis = now.millis + 2 * max 0 timeoutMs := Timestamp.millis_add _ _
  have hmillis : t.timestamp.millis = now.millis + max 0 timeoutMs := Timestamp.millis_add _ _
  obtain ⟨h, hadd, hi, hentries⟩ := TimerHeap.addTimer_init now timeoutMs cb callTimes
  have hdue : TimerHeap.Due late t := by
    show t.timestamp.millis ≤ late.millis
    omega
  have hdue' : TimerHeap.Due late t.next := by
    have hnext := TimerHeap.millis_next t
    show t.next.timestamp.millis ≤ late.millis
    omega
  -- the only timer that is due fires
  have hfires : ∀ (h : TimerHeap C) (u : Timer C), h.Inv → h.entries = [u] →
      TimerHeap.Due late u → ∃ h', resume h late [] =
        some (⟨h', [late]⟩, some ⟨u.id, u.timerCb, u.timestamp⟩) ∧ h'.Inv ∧
        (u.callTimes ≠ 1 → h'.entries = [u.next]) := by
    intro h u hi hentries hu
    rcases resume_spec hi late [] with ⟨-, hnone⟩ | ⟨h', v, l, e, hi', -, hperm, -, hperm'⟩
    · exact absurd hu (hnone u (hentries ▸ .head _))
    · rw [hentries] at hperm
      obtain ⟨rfl, rfl⟩ := List.cons.inj (List.singleton_perm.mp hperm)
      refine ⟨h', e, hi', fun hne => ?_⟩
      rw [if_neg hne] at hperm'
      exact List.perm_singleton.mp hperm'
  obtain ⟨h₁, e₁, hi₁, hent₁⟩ := hfires h t hi hentries hdue
  obtain ⟨h₂, e₂, -, -⟩ := hfires h₁ t.next hi₁ (hent₁ hcalls) hdue'
  have hadded : Moves init
      ⟨.addTimer now timeoutMs cb callTimes, some (.added 1 cb callTimes), none⟩ ⟨h, []⟩ := by
    constructor
    · simp [step, init, hadd]
    · simp [event, init, hadd]
  have hfirst : Moves ⟨h, []⟩
      ⟨.checkTimeout late, some (.fired 1 cb), some ⟨1, cb, t.timestamp⟩⟩ ⟨h₁, [late]⟩ := ⟨e₁, rfl⟩
  have hsecond : Moves ⟨h₁, [late]⟩
      ⟨.callbackReturn, some (.fired 1 cb), some ⟨1, cb, t.next.timestamp⟩⟩ ⟨h₂, [late]⟩ := ⟨e₂, rfl⟩
  exact ⟨_, _, .cons hadded (.cons hfirst (.cons hsecond .nil)), by simp, rfl⟩

/-- A timer of 30 days: its second deadline lies before the first. -/
theorem not_deadlineLaw_month : ¬ ∀ C : Type, DeadlineLaw C .zero 2592000000 (-1) := by
  intro hlaw
  obtain ⟨s, after, hrun, hreuse, hdeadlines⟩ :=
    fires_twice .zero 2592000000 () (show (-1 : Int) ≠ 1 by decide)
  have hd := hlaw Unit hrun (by decide) hreuse 1 _ (by rw [hdeadlines]; rfl)
  exact absurd hd (by decide)

end TimerRun

/-- The deadlines of a timer are `now` and the multiples of its period in every run exactly
if it is called once only or the period fits into an `int`. -/
theorem deadlines_iff (now : Timestamp) (timeoutMs callTimes : Int) :
    (∀ C : Type, TimerRun.DeadlineLaw C now timeoutMs callTimes) ↔
      callTimes = 1 ∨ timeoutMs < 2 ^ 31 := by
  constructor
  · intro hlaw
    by_contra hnot
    obtain ⟨hcalls, hlong⟩ := not_or.mp hnot
    obtain ⟨s, after, hrun, hreuse, hdeadlines⟩ := TimerRun.fires_twice now timeoutMs () hcalls
    have hd := hlaw Unit hrun (by decide) hreuse 1 _ (by rw [hdeadlines]; rfl)
    have hnanos := congrArg Timestamp.nanos hd
    rw [Timestamp.nanos_add, Timestamp.nanos_add, Timestamp.nanos_add] at hnanos
    have hlt := Int.bmod_lt (x := max 0 timeoutMs) (show 0 < 2 ^ 32 by decide)
    omega
  · intro h C before after s id cb hrun hid hreuse j d hd
    have hperiodic := TimerRun.periodic_of_run hrun hid hreuse
    rw [hperiodic.past j d hd, Timestamp.add_add]
    congr 1
    rcases h with hcalls | hshort
    · have hlen := TimerRun.single_of_run hrun hid hreuse hcalls
      obtain ⟨hj, -⟩ := List.getElem?_eq_some_iff.mp hd
      obtain rfl : j = 0 := by omega
      simp
    · have hbmod : (max 0 timeoutMs).bmod (2 ^ 32) = max 0 timeoutMs :=
        Int.bmod_eq_of_le (by omega) (by omega)
      rw [hbmod, Int.add_mul, Int.one_mul, Int.add_comm]

end Brickred
