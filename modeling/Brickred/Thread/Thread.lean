import Mathlib.Algebra.GroupWithZero.Nat
import Mathlib.Logic.Function.Basic
import Brickred.Lib.Transition

/-!
# Threads (`thread.cc`)

Any number of threads call the methods of one `Thread`. The sections under
`data_mutex_` are atomic, `join_cond_.wait` releases the mutex, and `pthread_join`
runs without it. What `pthread_create` returns, and when `pthread_join` ends, is
up to the environment.

`detach` does not ask whether the thread was started, as `join` and the destructor
do. The results below are about the runs in which nobody detaches it before.
-/

namespace Brickred

open Transition

namespace Thread

inductive Call where
  | start
  | joinable
  | join
  | detach
deriving DecidableEq, Repr

/-- Where a thread is: in no call, in a call without having had the mutex, in
`join_cond_.wait` or past it but without the mutex, or making the real join, before,
in and after `pthread_join`. -/
inductive Phase where
  | outside
  | called (c : Call)
  | waiting
  | woken
  | doJoin
  | joining
  | joinDone
deriving DecidableEq, Repr

/-- The thread makes the real join. -/
def Phase.joins : Phase → Bool
  | .doJoin | .joining | .joinDone => true
  | _ => false

/-- The thread has gone past the first section of `join`. -/
def Phase.inJoin : Phase → Bool
  | .outside | .called _ => false
  | _ => true

theorem Phase.joins_of_not_inJoin {p : Phase} (h : p.inJoin = false) : p.joins = false := by
  cases p with
  | outside | called => rfl
  | waiting | woken | doJoin | joining | joinDone => cases h

/-- What is done to the `Thread`, by the thread `t`. A `pthread_join` or a `pthread_detach`
comes with the handle it is called on. -/
inductive Event (θ H : Type) where
  | calls (t : θ) (c : Call)
  | throws (t : θ) (c : Call) (message : String)
  /-- `pthread_create` has returned the handle, and `start` returns. -/
  | created (t : θ) (handle : H)
  | joinableReturns (t : θ) (result : Bool)
  /-- The thread takes it on to make the real join. -/
  | takes (t : θ)
  | waits (t : θ)
  | wakes (t : θ)
  | pthreadJoin (t : θ) (handle : H)
  | pthreadJoined (t : θ)
  | joinReturns (t : θ)
  | detachReturns (t : θ) (detached : Option H)
  | destroyed (detached : Option H)

/-- The handle that `pthread_join` or `pthread_detach` is called on. -/
def Event.target {θ H : Type} : Event θ H → Option H
  | .pthreadJoin _ handle => some handle
  | .detachReturns _ detached | .destroyed detached => detached
  | _ => none

end Thread

open Thread in
/-- `Thread::Impl`, with where each thread is. -/
structure Thread (θ H : Type) where
  threadHandle : H
  started : Bool
  joinStarted : Bool
  joined : Bool
  phase : θ → Phase
  /-- The destructor has run. -/
  gone : Bool

namespace Thread

variable {θ H : Type}

/-- `Thread::Impl::Impl` -/
def init (θ H : Type) [Zero H] : Thread θ H := ⟨0, false, false, false, fun _ => .outside, false⟩

/-- `Thread::Impl::joinable` -/
def joinable (s : Thread θ H) : Bool := s.started && !s.joined

/-- `Thread::Impl::detach`, with the handle that `pthread_detach` is called on. -/
def detach (s : Thread θ H) : Option H × Thread θ H :=
  if s.joinStarted then (none, s)
  else (some s.threadHandle, { s with joinStarted := true, joined := true })

/-- `Thread::Impl::~Impl` -/
def destroy (s : Thread θ H) : Option H × Thread θ H :=
  if s.joinable then s.detach else (none, s)

/-- What the section of `join` comes to. -/
inductive JoinTest where
  | throws (message : String)
  | takes
  | waits
  | returns

/-- The loop around `join_cond_.wait`, which comes to the next test of `joined_`. -/
def waitJoined (s : Thread θ H) : JoinTest := if s.joined then .returns else .waits

/-- The first section of `Thread::Impl::join`, in a thread with the handle `self`. -/
def joinTest [DecidableEq H] (s : Thread θ H) (self : H) : JoinTest :=
  if s.started = false then .throws "thread was never started"
  else if s.threadHandle = self then .throws "thread try to join itself"
  else if !s.joinStarted then .takes
  else s.waitJoined

/-- `join_cond_.notifyAll` -/
def notifyAll (s : Thread θ H) : Thread θ H :=
  { s with phase := fun t => if s.phase t = .waiting then .woken else s.phase t }

section Steps

variable [DecidableEq θ]

/-- The thread `t` goes on to `p`. -/
def goes (s : Thread θ H) (t : θ) (p : Phase) : Thread θ H :=
  { s with phase := Function.update s.phase t p }

/-- The steps of all threads. `self` is what `pthread_self` returns in each. -/
inductive Step [DecidableEq H] (self : θ → H) : Thread θ H → Event θ H → Thread θ H → Prop where
  | calls {s : Thread θ H} {t} (c) (hgone : s.gone = false) (h : s.phase t = .outside) :
      Step self s (.calls t c) (s.goes t (.called c))
  | startThrows {s : Thread θ H} {t} (h : s.phase t = .called .start) (hs : s.started = true) :
      Step self s (.throws t .start "thread has already started") (s.goes t .outside)
  /-- A `pthread_create` that fails may leave any handle. -/
  | createFails {s : Thread θ H} {t} (handle) (h : s.phase t = .called .start)
      (hs : s.started = false) :
      Step self s (.throws t .start "create thread failed in pthread_create")
        { s.goes t .outside with threadHandle := handle }
  | created {s : Thread θ H} {t} (handle) (h : s.phase t = .called .start)
      (hs : s.started = false) :
      Step self s (.created t handle)
        { s.goes t .outside with threadHandle := handle, started := true }
  | joinable {s : Thread θ H} {t} (h : s.phase t = .called .joinable) :
      Step self s (.joinableReturns t s.joinable) (s.goes t .outside)
  | joinThrows {s : Thread θ H} {t message} (h : s.phase t = .called .join)
      (htest : s.joinTest (self t) = .throws message) :
      Step self s (.throws t .join message) (s.goes t .outside)
  | takes {s : Thread θ H} {t} (h : s.phase t = .called .join)
      (htest : s.joinTest (self t) = .takes) :
      Step self s (.takes t) { s.goes t .doJoin with joinStarted := true }
  | waits {s : Thread θ H} {t}
      (h : s.phase t = .called .join ∧ s.joinTest (self t) = .waits ∨
        s.phase t = .woken ∧ s.waitJoined = .waits) :
      Step self s (.waits t) (s.goes t .waiting)
  | joinReturns {s : Thread θ H} {t}
      (h : s.phase t = .called .join ∧ s.joinTest (self t) = .returns ∨
        s.phase t = .woken ∧ s.waitJoined = .returns) :
      Step self s (.joinReturns t) (s.goes t .outside)
  /-- A wait may end without a notification. -/
  | wakes {s : Thread θ H} {t} (h : s.phase t = .waiting) :
      Step self s (.wakes t) (s.goes t .woken)
  | pthreadJoin {s : Thread θ H} {t} (h : s.phase t = .doJoin) :
      Step self s (.pthreadJoin t s.threadHandle) (s.goes t .joining)
  | pthreadJoined {s : Thread θ H} {t} (h : s.phase t = .joining) :
      Step self s (.pthreadJoined t) (s.goes t .joinDone)
  /-- The last section of the real join. -/
  | joinEnds {s : Thread θ H} {t} (h : s.phase t = .joinDone) :
      Step self s (.joinReturns t) { (s.goes t .outside).notifyAll with joined := true }
  | detach {s : Thread θ H} {t} (h : s.phase t = .called .detach) :
      Step self s (.detachReturns t s.detach.1) (s.detach.2.goes t .outside)
  | destroy {s : Thread θ H} (hgone : s.gone = false) (h : ∀ t, s.phase t = .outside) :
      Step self s (.destroyed s.destroy.1) { s.destroy.2 with gone := true }

end Steps

/-! ## What a run has to keep to -/

/-- The thread has been joined or detached. -/
def Event.ends : Event θ H → Bool
  | .pthreadJoined _ => true
  | .detachReturns _ detached | .destroyed detached => detached.isSome
  | _ => false

/-- What holds of what has been done and where it has come to: one call at most in all, on
a handle that has been created, before any `join` returns; and a thread waits only while
another one makes the real join. -/
structure Lawful (es : List (Event θ H)) (s : Thread θ H) : Prop where
  once : (es.filterMap Event.target).length ≤ 1
  created : Justified
    (fun before e => ∀ handle, e.target = some handle → ∃ t, .created t handle ∈ before) es
  returned : Justified
    (fun before e => ∀ t, e = .joinReturns t → ∃ e' ∈ before, e'.ends = true) es
  left : ∀ t, s.phase t = .waiting → s.joined = false ∧ ∃ u, (s.phase u).joins = true

/-- `detach` gets the mutex only when the thread has been started. -/
def DetachStarted (s : Thread θ H) (e : Event θ H) : Prop :=
  ∀ t detached, e = .detachReturns t detached → s.started = true

/-- How far the joining has come: nobody has begun it, the thread `u` makes the real join,
or it is over. -/
inductive Stage (es : List (Event θ H)) (s : Thread θ H) : Prop where
  | idle (hs : s.joinStarted = false) (hj : s.joined = false)
      (hphase : ∀ t, (s.phase t).inJoin = false) (htargets : es.filterMap Event.target = [])
  | taken (u : θ) (hs : s.joinStarted = true) (hj : s.joined = false)
      (hphase : ∀ t, (s.phase t).joins = true ↔ t = u)
      (htargets : (es.filterMap Event.target).length = if s.phase u = .doJoin then 0 else 1)
      (hdone : s.phase u = .joinDone → ∃ e ∈ es, e.ends = true)
  | ended (hs : s.joinStarted = true) (hj : s.joined = true)
      (hphase : ∀ t, (s.phase t).joins = false ∧ s.phase t ≠ .waiting)
      (htargets : (es.filterMap Event.target).length ≤ 1) (hends : ∃ e ∈ es, e.ends = true)

variable {es : List (Event θ H)} {e : Event θ H} {s s' : Thread θ H} {t : θ} {p : Phase}
theorem filterMap_target_quiet (he : e.target = none) :
    (es ++ [e]).filterMap Event.target = es.filterMap Event.target := by
  rw [List.filterMap_append, List.filterMap_cons_none he, List.filterMap_nil, List.append_nil]

theorem length_target {handle : H} (he : e.target = some handle) :
    ((es ++ [e]).filterMap Event.target).length = (es.filterMap Event.target).length + 1 := by
  rw [List.filterMap_append, List.filterMap_cons_some he, List.filterMap_nil,
    List.length_append, List.length_singleton]

theorem exists_ends_snoc (h : ∃ e ∈ es, Event.ends e = true) :
    ∃ e' ∈ es ++ [e], Event.ends e' = true := by
  obtain ⟨e', hmem, hends⟩ := h
  exact ⟨e', List.mem_append_left _ hmem, hends⟩

theorem waitJoined_waits (h : s.waitJoined = .waits) : s.joined = false := by
  unfold waitJoined at h
  split at h
  next => cases h
  next hj => exact Bool.eq_false_iff.2 hj

theorem waitJoined_returns (h : s.waitJoined = .returns) : s.joined = true := by
  unfold waitJoined at h
  split at h
  next hj => exact hj
  next => cases h

/-- What the first section of `join` has seen when it does not throw. -/
theorem joinTest_cases [DecidableEq H] (s : Thread θ H) (self : H) :
    (∃ message, s.joinTest self = .throws message) ∨
      s.started = true ∧ s.joinStarted = false ∧ s.joinTest self = .takes ∨
      s.started = true ∧ s.joinStarted = true ∧ s.joinTest self = s.waitJoined := by
  unfold joinTest
  split
  · exact .inl ⟨_, rfl⟩
  next hs =>
    split
    · exact .inl ⟨_, rfl⟩
    · cases hjs : s.joinStarted with
      | false => exact .inr (.inl ⟨by simpa using hs, rfl, rfl⟩)
      | true => exact .inr (.inr ⟨by simpa using hs, rfl, rfl⟩)

/-! ## What the steps do to the stage -/

theorem Stage.joinStarted_of_inJoin (h : Stage es s) (ht : (s.phase t).inJoin = true) :
    s.joinStarted = true := by
  cases h with
  | idle _ _ hphase _ => exact absurd ht (Bool.eq_false_iff.1 (hphase t))
  | taken _ hs | ended hs => exact hs

/-- The thread that makes the real join is the one. -/
theorem Stage.joiner (h : Stage es s) (ht : (s.phase t).joins = true) :
    s.joinStarted = true ∧ s.joined = false ∧ (∀ u, (s.phase u).joins = true ↔ u = t) ∧
      (es.filterMap Event.target).length = (if s.phase t = .doJoin then 0 else 1) ∧
      (s.phase t = .joinDone → ∃ e ∈ es, e.ends = true) := by
  cases h with
  | idle _ _ hphase _ =>
    rw [Phase.joins_of_not_inJoin (hphase t)] at ht
    cases ht
  | taken u hs hj hphase htargets hdone =>
    obtain rfl := (hphase t).1 ht
    exact ⟨hs, hj, hphase, htargets, hdone⟩
  | ended _ _ hphase _ _ => exact absurd ht (Bool.eq_false_iff.1 (hphase t).1)

/-- To detach the thread ends the joining where nobody has begun it. -/
theorem Stage.detaches (h : Stage es s) {handle : H} (he : e.target = some handle)
    (hends : e.ends = true) (hs : s.joinStarted = false)
    (hs' : s'.joinStarted = true) (hj' : s'.joined = true)
    (hphase' : ∀ t, s'.phase t = s.phase t ∨ s'.phase t = .outside) : Stage (es ++ [e]) s' := by
  cases h with
  | idle _ _ hphase htargets =>
    refine .ended hs' hj' ?_ ?_ ⟨e, List.mem_append_right _ (List.mem_singleton.2 rfl), hends⟩
    · intro t
      rcases hphase' t with ht | ht
      · rw [ht]
        refine ⟨Phase.joins_of_not_inJoin (hphase t), fun hwait => ?_⟩
        have hidle := hphase t
        rw [hwait] at hidle
        cases hidle
      · rw [ht]
        exact ⟨rfl, nofun⟩
    · rw [length_target he, htargets]
      exact Nat.le_refl 1
  | taken _ hs' | ended hs' => cases hs.symm.trans hs'

/-- A thread that does not make the real join may go from `q` to `p`. -/
structure Aside (s : Thread θ H) (q p : Phase) : Prop where
  old : q.joins = false
  new : p.joins = false
  idle : s.joinStarted = false → p.inJoin = false
  ended : s.joined = true → p ≠ .waiting

/-- A thread that leaves where it is for the outside, or has just called. -/
theorem Aside.of_not_inJoin {q p : Phase} (hq : q.joins = false) (hp : p.inJoin = false) :
    Aside s q p where
  old := hq
  new := Phase.joins_of_not_inJoin hp
  idle _ := hp
  ended _ := by
    rintro rfl
    cases hp

/-- Threads that go aside leave the stage as it is. -/
theorem Stage.quiet (h : Stage es s) (he : e.target = none)
    (hs' : s'.joinStarted = s.joinStarted) (hj' : s'.joined = s.joined)
    (hphase' : ∀ t, s'.phase t = s.phase t ∨ Aside s (s.phase t) (s'.phase t)) :
    Stage (es ++ [e]) s' := by
  cases h with
  | idle hs hj hphase htargets =>
    refine .idle (hs'.trans hs) (hj'.trans hj) ?_ ((filterMap_target_quiet he).trans htargets)
    intro t
    rcases hphase' t with ht | ht
    · rw [ht]
      exact hphase t
    · exact ht.idle hs
  | taken u hs hj hphase htargets hdone =>
    have hu : s'.phase u = s.phase u := by
      rcases hphase' u with hu | hu
      · exact hu
      · exact absurd ((hphase u).2 rfl) (Bool.eq_false_iff.1 hu.old)
    refine .taken u (hs'.trans hs) (hj'.trans hj) ?_ ?_ ?_
    · intro t
      rw [← hphase t]
      rcases hphase' t with ht | ht
      · rw [ht]
      · rw [ht.old, ht.new]
    · rw [filterMap_target_quiet he, hu]
      exact htargets
    · intro hdone'
      exact exists_ends_snoc (hdone (hu ▸ hdone'))
  | ended hs hj hphase htargets hends =>
    refine .ended (hs'.trans hs) (hj'.trans hj) ?_ ?_ (exists_ends_snoc hends)
    · intro t
      rcases hphase' t with ht | ht
      · rw [ht]
        exact hphase t
      · exact ⟨ht.new, ht.ended hj⟩
    · rw [filterMap_target_quiet he]
      exact htargets

section Steps

variable [DecidableEq θ]

theorem Stage.takes (h : Stage es s) (he : e.target = none) (hs : s.joinStarted = false)
    (hp : p = .doJoin) : Stage (es ++ [e]) { s.goes t p with joinStarted := true } := by
  cases h with
  | idle _ hj hphase htargets =>
    refine .taken t rfl hj ?_ ?_ ?_
    · intro u
      show (Function.update s.phase t p u).joins = true ↔ u = t
      rw [Function.update_apply]
      split
      next hu => exact iff_of_true (by rw [hp]; rfl) hu
      next hu =>
        exact iff_of_false (Bool.eq_false_iff.1 (Phase.joins_of_not_inJoin (hphase u))) hu
    · show _ = if Function.update s.phase t p t = .doJoin then 0 else 1
      rw [filterMap_target_quiet he, htargets, Function.update_self, if_pos hp]
      rfl
    · show Function.update s.phase t p t = .joinDone → _
      rw [Function.update_self, hp]
      exact nofun
  | taken _ hs' | ended hs' => cases hs.symm.trans hs'

/-- The thread that makes the real join goes on with it. -/
theorem Stage.goes_joins (h : Stage es s) (ht : (s.phase t).joins = true) (hp : p.joins = true)
    (htargets : ((es ++ [e]).filterMap Event.target).length = if p = .doJoin then 0 else 1)
    (hdone : p = .joinDone → e.ends = true) : Stage (es ++ [e]) (s.goes t p) := by
  obtain ⟨hs, hj, hphase, -, -⟩ := h.joiner ht
  refine .taken t hs hj ?_ ?_ ?_
  · intro u
    show (Function.update s.phase t p u).joins = true ↔ u = t
    rw [Function.update_apply]
    split
    next hu => exact iff_of_true hp hu
    next => exact hphase u
  · show _ = if Function.update s.phase t p t = .doJoin then 0 else 1
    rwa [Function.update_self]
  · show Function.update s.phase t p t = .joinDone → _
    rw [Function.update_self]
    intro hq
    exact ⟨e, List.mem_append_right _ (List.mem_singleton.2 rfl), hdone hq⟩

theorem Stage.joinEnds (h : Stage es s) (he : e.target = none) (ht : s.phase t = .joinDone) :
    Stage (es ++ [e]) { (s.goes t .outside).notifyAll with joined := true } := by
  obtain ⟨hs, -, hphase, htargets, hdone⟩ := h.joiner (t := t) (by rw [ht]; rfl)
  refine .ended hs rfl ?_ ?_ (exists_ends_snoc (hdone ht))
  · intro u
    show (if Function.update s.phase t .outside u = .waiting then Phase.woken
        else Function.update s.phase t .outside u).joins = false ∧
      (if Function.update s.phase t .outside u = .waiting then Phase.woken
        else Function.update s.phase t .outside u) ≠ .waiting
    split
    · exact ⟨rfl, nofun⟩
    next hwait =>
      refine ⟨?_, hwait⟩
      rw [Function.update_apply]
      split
      · rfl
      next hu => exact Bool.eq_false_iff.2 (mt (hphase u).1 hu)
  · rw [filterMap_target_quiet he, htargets, ht]
    exact Nat.le_refl 1

theorem goes_aside {q : Phase} (hq : s.phase t = q) (h : Aside s q p) (u : θ) :
    (s.goes t p).phase u = s.phase u ∨ Aside s (s.phase u) ((s.goes t p).phase u) := by
  show Function.update s.phase t p u = s.phase u ∨ Aside s (s.phase u) (Function.update s.phase t p u)
  rw [Function.update_apply]
  split
  next hu =>
    rw [hu, hq]
    exact .inr h
  next => exact .inl rfl

end Steps

/-! ## Runs -/

/-- What holds while nobody has detached the thread too early. -/
structure Inv (es : List (Event θ H)) (s : Thread θ H) : Prop where
  handle : s.started = true → ∃ t, .created t s.threadHandle ∈ es
  started : ∀ t handle, .created t handle ∈ es → s.started = true
  joinStarted : s.joinStarted = true → s.started = true
  created : Justified
    (fun before e => ∀ handle, e.target = some handle → ∃ t, .created t handle ∈ before) es
  returned : Justified
    (fun before e => ∀ t, e = .joinReturns t → ∃ e' ∈ before, e'.ends = true) es
  stage : Stage es s

theorem inv_init [Zero H] : Inv [] (init θ H) where
  handle h := nomatch h
  started _ _ h := nomatch h
  joinStarted h := nomatch h
  created := justified_nil
  returned := justified_nil
  stage := .idle rfl rfl (fun _ => rfl) rfl

/-- A step that neither starts the thread nor calls on its handle nor returns from `join`. -/
theorem Inv.quiet (hi : Inv es s) (hcreated : ∀ t handle, e ≠ .created t handle)
    (he : e.target = none) (hreturns : ∀ t, e = .joinReturns t → ∃ e' ∈ es, e'.ends = true)
    (hs : s'.started = s.started) (hhandle : s.started = true → s'.threadHandle = s.threadHandle)
    (hjoin : s'.joinStarted = true → s.started = true) (hstage : Stage (es ++ [e]) s') :
    Inv (es ++ [e]) s' where
  handle h := by
    rw [hs] at h
    obtain ⟨t, ht⟩ := hi.handle h
    rw [hhandle h]
    exact ⟨t, List.mem_append_left _ ht⟩
  started t handle h := by
    rw [hs]
    rcases List.mem_append.1 h with h | h
    · exact hi.started t handle h
    · exact absurd (List.mem_singleton.1 h).symm (hcreated t handle)
  joinStarted h := hs.trans (hjoin h)
  created := hi.created.snoc (by
    intro handle h
    rw [he] at h
    cases h)
  returned := hi.returned.snoc hreturns
  stage := hstage

/-- A step that calls `pthread_join` or `pthread_detach` on the handle of the started thread. -/
theorem Inv.target (hi : Inv es s) (hstarted : s.started = true)
    (he : e.target = some s.threadHandle)
    (hreturns : ∀ t, e ≠ .joinReturns t) (hs : s'.started = s.started)
    (hhandle : s'.threadHandle = s.threadHandle) (hstage : Stage (es ++ [e]) s') :
    Inv (es ++ [e]) s' where
  handle h := by
    obtain ⟨t, ht⟩ := hi.handle hstarted
    rw [hhandle]
    exact ⟨t, List.mem_append_left _ ht⟩
  started t handle h := hs.trans hstarted
  joinStarted h := hs.trans hstarted
  created := hi.created.snoc (by
    intro handle h
    rw [he] at h
    cases h
    exact hi.handle hstarted)
  returned := hi.returned.snoc fun t h => absurd h (hreturns t)
  stage := hstage

section Join

variable [DecidableEq H] {self : H}

theorem test_returns
    (h : s.phase t = .called .join ∧ s.joinTest self = .returns ∨
      s.phase t = .woken ∧ s.waitJoined = .returns) :
    (s.phase t).joins = false ∧ s.joined = true := by
  rcases h with ⟨hp, htest⟩ | ⟨hp, htest⟩
  · refine ⟨by rw [hp]; rfl, ?_⟩
    rcases s.joinTest_cases self with ⟨_, h⟩ | ⟨-, -, h⟩ | ⟨-, -, h⟩
    · cases h.symm.trans htest
    · cases h.symm.trans htest
    · exact waitJoined_returns (h.symm.trans htest)
  · exact ⟨by rw [hp]; rfl, waitJoined_returns htest⟩

/-- A thread begins to wait only while there is a real join that is not over. -/
theorem Inv.test_waits (hi : Inv es s)
    (h : s.phase t = .called .join ∧ s.joinTest self = .waits ∨
      s.phase t = .woken ∧ s.waitJoined = .waits) :
    (s.phase t).joins = false ∧ s.joinStarted = true ∧ s.joined = false := by
  rcases h with ⟨hp, htest⟩ | ⟨hp, htest⟩
  · refine ⟨by rw [hp]; rfl, ?_⟩
    rcases s.joinTest_cases self with ⟨_, h⟩ | ⟨-, -, h⟩ | ⟨-, hs, h⟩
    · cases h.symm.trans htest
    · cases h.symm.trans htest
    · exact ⟨hs, waitJoined_waits (h.symm.trans htest)⟩
  · refine ⟨by rw [hp]; rfl, ?_, waitJoined_waits htest⟩
    exact hi.stage.joinStarted_of_inJoin (t := t) (by rw [hp]; rfl)

end Join

section Quiet

variable [DecidableEq θ]

/-- A thread goes aside, and nothing else happens. -/
theorem Inv.goes_quiet {q : Phase} (hi : Inv es s) (hcreated : ∀ t handle, e ≠ .created t handle)
    (he : e.target = none) (hreturns : ∀ t, e = .joinReturns t → ∃ e' ∈ es, e'.ends = true)
    (hq : s.phase t = q) (h : Aside s q p) : Inv (es ++ [e]) (s.goes t p) :=
  hi.quiet hcreated he hreturns rfl (fun _ => rfl) hi.joinStarted
    (hi.stage.quiet he rfl rfl (goes_aside hq h))

end Quiet

theorem Inv.lawful (hi : Inv es s) : Lawful es s where
  once := by
    cases hi.stage with
    | idle _ _ _ htargets =>
      rw [htargets]
      exact Nat.zero_le 1
    | taken u _ _ _ htargets _ =>
      rw [htargets]
      split
      · exact Nat.zero_le 1
      · exact Nat.le_refl 1
    | ended _ _ _ htargets _ => exact htargets
  created := hi.created
  returned := hi.returned
  left t ht := by
    cases hi.stage with
    | idle _ _ hphase _ =>
      have hidle := hphase t
      rw [ht] at hidle
      cases hidle
    | taken u _ hj hphase _ _ => exact ⟨hj, u, (hphase u).2 rfl⟩
    | ended _ _ hphase _ _ => exact absurd ht (hphase t).2

variable [DecidableEq θ] [DecidableEq H] {self : θ → H}

theorem inv_step (hi : Inv es s) (hguard : DetachStarted s e) (h : Step self s e s') :
    Inv (es ++ [e]) s' := by
  cases h with
  | calls _ _ hp | startThrows hp | joinable hp | joinThrows hp =>
    exact hi.goes_quiet nofun rfl nofun hp (.of_not_inJoin rfl rfl)
  | createFails handle hp hs =>
    have hnot : ¬ s.started = true := Bool.eq_false_iff.1 hs
    exact hi.quiet nofun rfl nofun rfl (fun h => absurd h hnot) hi.joinStarted
      (hi.stage.quiet rfl rfl rfl (goes_aside hp (.of_not_inJoin rfl rfl)))
  | @created t handle hp hs =>
    have hstage : Stage (es ++ [.created t handle])
        { s.goes t .outside with threadHandle := handle, started := true } :=
      hi.stage.quiet rfl rfl rfl (goes_aside hp (.of_not_inJoin rfl rfl))
    exact
      { handle := fun _ => ⟨t, List.mem_append_right _ (List.mem_singleton.2 rfl)⟩
        started := fun _ _ _ => rfl
        joinStarted := fun _ => rfl
        created := hi.created.snoc nofun
        returned := hi.returned.snoc nofun
        stage := hstage }
  | takes hp htest =>
    rcases s.joinTest_cases _ with ⟨_, h⟩ | ⟨hstarted, hs, -⟩ | ⟨-, -, h⟩
    · cases h.symm.trans htest
    · exact hi.quiet nofun rfl nofun rfl (fun _ => rfl) (fun _ => hstarted)
        (hi.stage.takes rfl hs rfl)
    · unfold waitJoined at h
      split at h <;> cases h.symm.trans htest
  | waits h =>
    obtain ⟨hold, hs, hj⟩ := hi.test_waits h
    refine hi.goes_quiet nofun rfl nofun rfl ⟨hold, rfl, ?_, ?_⟩
    · intro hs'
      cases hs.symm.trans hs'
    · intro hj'
      cases hj.symm.trans hj'
  | joinReturns h =>
    obtain ⟨hold, hj⟩ := test_returns h
    refine hi.goes_quiet nofun rfl ?_ rfl (.of_not_inJoin hold rfl)
    rintro t -
    cases hi.stage with
    | idle _ hj' | taken _ _ hj' => cases hj.symm.trans hj'
    | ended _ _ _ _ hends => exact hends
  | @wakes t hp =>
    have hs := hi.stage.joinStarted_of_inJoin (t := t) (by rw [hp]; rfl)
    refine hi.goes_quiet nofun rfl nofun hp ⟨rfl, rfl, ?_, fun _ => nofun⟩
    intro hs'
    cases hs.symm.trans hs'
  | @pthreadJoin t hp =>
    have hjoins : (s.phase t).joins = true := by rw [hp]; rfl
    obtain ⟨hs, -, -, htargets, -⟩ := hi.stage.joiner hjoins
    refine hi.target (hi.joinStarted hs) rfl nofun rfl rfl ?_
    refine hi.stage.goes_joins hjoins rfl ?_ nofun
    rw [length_target rfl, htargets, hp]
    rfl
  | @pthreadJoined t hp =>
    have hjoins : (s.phase t).joins = true := by rw [hp]; rfl
    obtain ⟨-, -, -, htargets, -⟩ := hi.stage.joiner hjoins
    refine hi.quiet nofun rfl nofun rfl (fun _ => rfl) hi.joinStarted ?_
    refine hi.stage.goes_joins hjoins rfl ?_ fun _ => rfl
    rw [filterMap_target_quiet rfl, htargets, hp]
    rfl
  | @joinEnds t hp =>
    obtain ⟨hs, -, -, -, hdone⟩ := hi.stage.joiner (t := t) (by rw [hp]; rfl)
    refine hi.quiet nofun rfl (fun _ _ => hdone hp) rfl (fun _ => rfl) ?_
      (hi.stage.joinEnds rfl hp)
    exact fun _ => hi.joinStarted hs
  | @detach t hp =>
    have hstarted : s.started = true := hguard t _ rfl
    unfold Thread.detach
    split
    · exact hi.goes_quiet nofun rfl nofun hp (.of_not_inJoin rfl rfl)
    next hs =>
      refine hi.target hstarted rfl nofun rfl rfl ?_
      refine hi.stage.detaches rfl rfl (Bool.eq_false_iff.2 hs) rfl rfl ?_
      intro u
      show Function.update s.phase t .outside u = _ ∨ Function.update s.phase t .outside u = _
      rw [Function.update_apply]
      split
      · exact .inr rfl
      · exact .inl rfl
  | destroy _ hp =>
    have hquiet : Inv (es ++ [.destroyed none]) { s with gone := true } :=
      hi.quiet nofun rfl nofun rfl (fun _ => rfl) hi.joinStarted
        (hi.stage.quiet rfl rfl rfl fun u => .inl rfl)
    unfold destroy
    split
    next hjoinable =>
      -- the destructor asks first, so the thread has been started
      have hstarted : s.started = true := (Bool.and_eq_true_iff.1 hjoinable).1
      unfold Thread.detach
      split
      · exact hquiet
      next hs =>
        refine hi.target hstarted rfl nofun rfl rfl ?_
        exact hi.stage.detaches rfl rfl (Bool.eq_false_iff.2 hs) rfl rfl fun u => .inl rfl
    next => exact hquiet

theorem inv_run [Zero H] (h : Run (Guarded DetachStarted (Step self)) (init θ H) es s) :
    Inv es s :=
  h.history (fun hi ⟨hguard, hstep⟩ => inv_step hi hguard hstep) inv_init

/-- A run is lawful exactly if in each of its steps `detach` finds the thread started. A
`detach` before that is made on a handle that nobody has created. -/
theorem lawful_iff_detachStarted [Zero H] (h : Run (Step self) (init θ H) es s) :
    Lawful es s ↔ Run (Guarded DetachStarted (Step self)) (init θ H) es s := by
  constructor
  · intro hlawful
    rcases h.guarded_or DetachStarted with
      hguarded | ⟨before, e, after, s₁, s₂, rfl, hbefore, hstep, hguard⟩
    · exact hguarded
    · have hi := inv_run hbefore
      unfold DetachStarted at hguard
      push Not at hguard
      obtain ⟨t, detached, rfl, hstarted⟩ := hguard
      have hs : s₁.joinStarted = false := by
        cases hs : s₁.joinStarted with
        | false => rfl
        | true => exact absurd (hi.joinStarted hs) hstarted
      have hcall : detached = some s₁.threadHandle := by
        cases hstep
        unfold detach
        rw [if_neg (Bool.eq_false_iff.1 hs)]
      obtain ⟨u, hu⟩ := hlawful.created before _ after rfl s₁.threadHandle hcall
      exact absurd (hi.started u _ hu) hstarted
  · intro hguarded
    exact (inv_run hguarded).lawful

/-- One thread makes the real join while another one waits for it. -/
theorem lawful_two_joins :
    ∃ s, Lawful
      [.calls true .start, .created true 5, .calls true .join, .takes true, .calls false .join,
        .waits false, .pthreadJoin true 5, .pthreadJoined true, .joinReturns true,
        .joinReturns false, .destroyed none] (s : Thread Bool Nat) := by
  have hrun : ∃ s, Run (Guarded DetachStarted (Step fun t => cond t 7 8)) (init Bool Nat)
      [.calls true .start, .created true 5, .calls true .join, .takes true, .calls false .join,
        .waits false, .pthreadJoin true 5, .pthreadJoined true, .joinReturns true,
        .joinReturns false, .destroyed none] s :=
    ⟨_, .cons ⟨nofun, .calls .start rfl rfl⟩ <| .cons ⟨nofun, .created 5 rfl rfl⟩ <|
      .cons ⟨nofun, .calls .join rfl rfl⟩ <| .cons ⟨nofun, .takes rfl rfl⟩ <|
      .cons ⟨nofun, .calls .join rfl rfl⟩ <| .cons ⟨nofun, .waits (.inl ⟨rfl, rfl⟩)⟩ <|
      .cons ⟨nofun, .pthreadJoin rfl⟩ <| .cons ⟨nofun, .pthreadJoined rfl⟩ <|
      .cons ⟨nofun, .joinEnds rfl⟩ <| .cons ⟨nofun, .joinReturns (.inr ⟨rfl, rfl⟩)⟩ <|
      .cons ⟨nofun, .destroy rfl (by decide)⟩ .nil⟩
  obtain ⟨s, hguarded⟩ := hrun
  exact ⟨s, (lawful_iff_detachStarted (hguarded.mono fun h => h.2)).2 hguarded⟩

/-- `pthread_detach` of a thread that was never started, on the handle 0. -/
theorem not_lawful_detach :
    ∃ s, Run (Step fun _ => 7) (init Unit Nat)
        [.calls () .detach, .detachReturns () (some 0)] s ∧
      ¬ Lawful [.calls () .detach, .detachReturns () (some 0)] s := by
  refine ⟨_, .cons (.calls .detach rfl rfl) (.cons (.detach rfl) .nil), ?_⟩
  intro hlawful
  obtain ⟨t, ht⟩ := hlawful.created [.calls () .detach] _ [] rfl 0 rfl
  cases List.mem_singleton.1 ht

end Thread

end Brickred
