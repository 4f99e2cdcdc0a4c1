import Mathlib.Data.List.Nodup
import Mathlib.Data.List.ReduceOption
import Mathlib.Logic.Function.Basic
import Brickred.Lib.Transition

/-!
# Monitors

Shared state behind one mutex, with condition variables on which threads wait. A
critical section is atomic. It either finds that it cannot go on and waits, which
releases the mutex, or it leaves a new shared state, notifying at most one thread that
waits on a condition. A thread whose wait has ended does not get the mutex at once: it
runs its section again from the test when it does, and other threads may have been
there before.

`no_lost_wakeup` is the rule for such a monitor: if each notification stands for
one unit of what the waiting threads wait for, then threads are left waiting only when
the threads notified and not yet back suffice for all the units there are.
-/

namespace Monitor

open Transition

variable {θ σ κ ι ρ : Type}

/-- How a run through a critical section ends. -/
inductive Section (σ ι ρ : Type) where
  | wait (c : ι)
  | leave (s : σ) (notified : Option ι) (result : ρ)

/-- Where a thread is: outside of the monitor, blocked on a condition, or awake after
a wait, because of a notification or without one, and yet to get the mutex. -/
inductive Phase (κ ι : Type) where
  | outside
  | waiting (c : ι) (call : κ)
  | signalled (c : ι) (call : κ)
  | woken (call : κ)
  deriving DecidableEq

/-- The thread would run the section of `call` if it had the mutex. -/
def Phase.Ready (call : κ) : Phase κ ι → Prop
  | .outside => True
  | .waiting _ _ => False
  | .signalled _ k => k = call
  | .woken k => k = call

def Phase.isWaiting [DecidableEq ι] (c : ι) : Phase κ ι → Bool
  | .waiting c' _ => c' = c
  | _ => false

def Phase.isSignalled [DecidableEq ι] (c : ι) : Phase κ ι → Bool
  | .signalled c' _ => c' = c
  | _ => false

structure State (θ σ κ ι : Type) where
  shared : σ
  phase : θ → Phase κ ι

/-- Some thread is blocked on the condition and has not been notified. -/
def Waits [DecidableEq ι] (p : θ → Phase κ ι) (c : ι) : Prop :=
  ∃ t, (p t).isWaiting c

/-- How many of `n` threads are notified on the condition and have not got the mutex yet. -/
def signalled [DecidableEq ι] {n : Nat} (p : Fin n → Phase κ ι) (c : ι) : Nat :=
  (List.finRange n).countP fun t => (p t).isSignalled c

/-- The effect of a notification: one of the threads that wait is chosen, if there
is one. -/
inductive Notify [DecidableEq θ] : Option ι → (θ → Phase κ ι) → (θ → Phase κ ι) → Prop where
  | nobody {p} : Notify none p p
  | missed {c p} (h : ∀ t k, p t ≠ .waiting c k) : Notify (some c) p p
  | one {c p t k} (h : p t = .waiting c k) :
      Notify (some c) p (Function.update p t (.signalled c k))

/-- One step of one thread, labelled with the call that has returned, if one has. -/
inductive Step [DecidableEq θ] (body : κ → σ → Section σ ι ρ) :
    State θ σ κ ι → Option (θ × κ × ρ) → State θ σ κ ι → Prop where
  | blocks {s} {t : θ} {k c} (hready : (s.phase t).Ready k) (h : body k s.shared = .wait c) :
      Step body s none { s with phase := Function.update s.phase t (.waiting c k) }
  | returns {s t k s' n r p'} (hready : (s.phase t).Ready k)
      (h : body k s.shared = .leave s' n r)
      (hnotify : Notify n (Function.update s.phase t .outside) p') :
      Step body s (some (t, k, r)) ⟨s', p'⟩
  /-- A wait may end without a notification. -/
  | wakes {s t c k} (h : s.phase t = .waiting c k) :
      Step body s none { s with phase := Function.update s.phase t (.woken k) }

/-- One step of the thread `t`, which is making the call `k`, with what the call returns
if it is over: for threads that run programs around their calls. -/
inductive StepOf [DecidableEq θ] (body : κ → σ → Section σ ι ρ) (t : θ) (k : κ) :
    State θ σ κ ι → Option ρ → State θ σ κ ι → Prop where
  | blocks {s c} (hready : (s.phase t).Ready k) (h : body k s.shared = .wait c) :
      StepOf body t k s none { s with phase := Function.update s.phase t (.waiting c k) }
  | returns {s s' n r p'} (hready : (s.phase t).Ready k)
      (h : body k s.shared = .leave s' n r)
      (hnotify : Notify n (Function.update s.phase t .outside) p') :
      StepOf body t k s (some r) ⟨s', p'⟩
  | wakes {s c} (h : s.phase t = .waiting c k) :
      StepOf body t k s none { s with phase := Function.update s.phase t (.woken k) }

theorem StepOf.step [DecidableEq θ] {body : κ → σ → Section σ ι ρ} {t : θ} {k : κ} {r : Option ρ}
    {s s' : State θ σ κ ι} (h : StepOf body t k s r s') :
    Step body s (r.map fun r => (t, k, r)) s' := by
  cases h with
  | blocks hready hbody => exact .blocks hready hbody
  | returns hready hbody hnotify => exact .returns hready hbody hnotify
  | wakes hwait => exact .wakes hwait

/-- What a step does to the shared state: a call that is not over leaves it as it is. -/
theorem StepOf.shared [DecidableEq θ] {body : κ → σ → Section σ ι ρ} {t : θ} {k : κ}
    {r : Option ρ} {s s' : State θ σ κ ι} (h : StepOf body t k s r s') :
    (r = none ∧ s'.shared = s.shared) ∨
      ∃ n r', r = some r' ∧ body k s.shared = .leave s'.shared n r' := by
  cases h with
  | blocks | wakes => exact .inl ⟨rfl, rfl⟩
  | returns _ hbody => exact .inr ⟨_, _, rfl, hbody⟩

/-- A notification finds only threads that wait. -/
theorem Notify.outside [DecidableEq θ] {n : Option ι} {p p' : θ → Phase κ ι} {u : θ}
    (h : Notify n p p') (hu : p u = .outside) : p' u = .outside := by
  cases h with
  | nobody | missed => exact hu
  | @one _ _ t k hwait =>
    have hut : u ≠ t := by
      rintro rfl
      cases hu.symm.trans hwait
    rwa [Function.update_of_ne hut]

/-- A thread that is outside stays there while others make steps. -/
theorem StepOf.outside [DecidableEq θ] {body : κ → σ → Section σ ι ρ} {t u : θ} {k : κ}
    {r : Option ρ} {s s' : State θ σ κ ι} (h : StepOf body t k s r s') (hut : u ≠ t)
    (hu : s.phase u = .outside) : s'.phase u = .outside := by
  cases h with
  | blocks | wakes =>
    show Function.update s.phase t _ u = .outside
    rwa [Function.update_of_ne hut]
  | returns _ _ hnotify => exact hnotify.outside (by rwa [Function.update_of_ne hut])

/-- A notification has an effect, whoever waits. -/
theorem exists_notify [DecidableEq θ] (n : Option ι) (p : θ → Phase κ ι) : ∃ p', Notify n p p' := by
  cases n with
  | none => exact ⟨p, .nobody⟩
  | some c =>
    by_cases h : ∃ t k, p t = .waiting c k
    · obtain ⟨t, k, hwait⟩ := h
      exact ⟨_, .one hwait⟩
    · exact ⟨p, .missed fun t k hwait => h ⟨t, k, hwait⟩⟩

/-- A thread that is outside can run a section that does not wait, and is outside then. -/
theorem exists_stepOf [DecidableEq θ] {body : κ → σ → Section σ ι ρ} {t : θ} {k : κ}
    {s : State θ σ κ ι} {x : σ} {n : Option ι} {r : ρ} (houtside : s.phase t = .outside)
    (h : body k s.shared = .leave x n r) :
    ∃ s', StepOf body t k s (some r) s' ∧ s'.shared = x ∧ s'.phase t = .outside := by
  obtain ⟨p', hnotify⟩ := exists_notify n (Function.update s.phase t .outside)
  refine ⟨⟨x, p'⟩, .returns (by rw [houtside]; trivial) h hnotify, rfl, ?_⟩
  exact hnotify.outside (Function.update_self _ _ _)

/-- The state in which no thread has entered. -/
def init (s : σ) : State θ σ κ ι := ⟨s, fun _ => .outside⟩

/-- The calls that have returned in a run, in order. -/
def returned (events : List (Option (θ × κ × ρ))) : List (θ × κ × ρ) := events.reduceOption

section Rules

variable [DecidableEq θ] {body : κ → σ → Section σ ι ρ} {s s' : State θ σ κ ι}
  {events : List (Option (θ × κ × ρ))}

/-- What holds of the calls that have returned and the shared state. -/
theorem shared_invariant {I : List (θ × κ × ρ) → σ → Prop}
    (hleave : ∀ {l x t k x' n r}, I l x → body k x = .leave x' n r → I (l ++ [(t, k, r)]) x')
    {x₀ : σ} (h : Run (Step body) (init x₀) events s) (h₀ : I [] x₀) :
    I (returned events) s.shared := by
  refine h.history (I := fun events (s : State θ σ κ ι) => I (returned events) s.shared) ?_ h₀
  intro l s e s' hl hstep
  cases hstep with
  | blocks => simpa [returned, List.reduceOption_append] using hl
  | returns _ hbody => simpa [returned, List.reduceOption_append] using hleave hl hbody
  | wakes => simpa [returned, List.reduceOption_append] using hl

/-! ### No lost wake-up -/

/-- A thread waits on the condition of its call. -/
def Placed (waitsOn : κ → Option ι) : Phase κ ι → Prop
  | .waiting c k => waitsOn k = some c
  | .signalled c k => waitsOn k = some c
  | _ => True

variable {I : σ → Prop} {units : ι → σ → Nat} {waitsOn : κ → Option ι} {p p' : θ → Phase κ ι}
  {t : θ} {v : Phase κ ι} {c : ι} {n : Option ι}

private theorem placed_update (h : ∀ t, Placed waitsOn (p t)) (hv : Placed waitsOn v) (u : θ) :
    Placed waitsOn (Function.update p t v u) := by
  by_cases hu : u = t
  · subst hu
    simpa using hv
  · simpa [Function.update_of_ne hu] using h u

private theorem Notify.placed (hnotify : Notify n p p') (h : ∀ t, Placed waitsOn (p t)) :
    ∀ t, Placed waitsOn (p' t) := by
  cases hnotify with
  | nobody | missed => exact h
  | @one d _ t k hwait =>
    have hk := h t
    rw [hwait] at hk
    exact placed_update h hk

variable [DecidableEq ι]

/-- `units c x` is the number of threads waiting on `c` that the shared state `x` lets
go on. A section waits only if there are none, and always on the same condition; one
that has waited takes a unit when it goes on, and one that makes a unit notifies. -/
structure Accounts (body : κ → σ → Section σ ι ρ) (I : σ → Prop) (units : ι → σ → Nat)
    (waitsOn : κ → Option ι) : Prop where
  keep : ∀ {k x x' n r}, I x → body k x = .leave x' n r → I x'
  wait : ∀ {k x c}, I x → body k x = .wait c → waitsOn k = some c ∧ units c x = 0
  leave : ∀ {k x x' n r}, I x → body k x = .leave x' n r → ∀ c,
    units c x' + (if waitsOn k = some c then 1 else 0) ≤ units c x + if n = some c then 1 else 0

/-- Only a thread that is set to wait adds to those waiting. -/
private theorem waits_of_update (hv : v.isWaiting c = false)
    (h : Waits (Function.update p t v) c) : Waits p c := by
  obtain ⟨u, hu⟩ := h
  refine ⟨u, ?_⟩
  by_cases hut : u = t
  · subst hut
    simp [hv] at hu
  · simpa [Function.update_of_ne hut] using hu

/-! ### Counting the notified threads -/

/-- Setting one entry changes a count by that entry. -/
theorem countP_update {α β : Type} [DecidableEq α] (f : α → β) (a : α) (b : β) (P : β → Bool)
    {l : List α} (hnodup : l.Nodup) (ha : a ∈ l) :
    l.countP (fun x => P (Function.update f a b x)) + (if P (f a) then 1 else 0) =
      l.countP (fun x => P (f x)) + if P b then 1 else 0 := by
  induction l with
  | nil => cases ha
  | cons x l ih =>
    obtain ⟨hx, hl⟩ := List.nodup_cons.mp hnodup
    rw [List.countP_cons, List.countP_cons]
    by_cases hxa : x = a
    · subst hxa
      have hrest : l.countP (fun y => P (Function.update f x b y)) = l.countP fun y => P (f y) := by
        refine List.countP_congr fun y hy => ?_
        rw [Function.update_of_ne (by rintro rfl; exact hx hy)]
      rw [hrest, Function.update_self]
      omega
    · have hmem : a ∈ l := (List.mem_cons.mp ha).resolve_left (Ne.symm hxa)
      have hrest := ih hl hmem
      rw [Function.update_of_ne hxa]
      omega

variable {m : Nat} {p p' : Fin m → Phase κ ι} {t : Fin m} {s s' : State (Fin m) σ κ ι}
  {events : List (Option (Fin m × κ × ρ))}

/-- Nobody is left waiting while there are more units than threads on their way. -/
structure Awake (I : σ → Prop) (units : ι → σ → Nat) (waitsOn : κ → Option ι)
    (s : State (Fin m) σ κ ι) : Prop where
  holds : I s.shared
  placed : ∀ t, Placed waitsOn (s.phase t)
  awake : ∀ c, Waits s.phase c → units c s.shared ≤ signalled s.phase c

private theorem signalled_update (p : Fin m → Phase κ ι) (t : Fin m) (v : Phase κ ι) (c : ι) :
    signalled (Function.update p t v) c + (if (p t).isSignalled c then 1 else 0) =
      signalled p c + if v.isSignalled c then 1 else 0 :=
  countP_update p t v (Phase.isSignalled c) (List.nodup_finRange m) (List.mem_finRange t)

/-- A notification makes up for one unit. -/
private theorem Notify.awake {u : Nat} (hnotify : Notify n p p')
    (hp : Waits p c → u ≤ signalled p c + if n = some c then 1 else 0)
    (hwaits : Waits p' c) : u ≤ signalled p' c := by
  cases hnotify with
  | nobody => simpa using hp hwaits
  | @missed d _ hnone =>
    have hd : d ≠ c := by
      rintro rfl
      obtain ⟨t, ht⟩ := hwaits
      cases hphase : p t with
      | waiting d' k =>
        obtain rfl : d' = d := by simpa [hphase, Phase.isWaiting] using ht
        exact hnone t k hphase
      | _ => simp [hphase, Phase.isWaiting] at ht
    simpa [hd] using hp hwaits
  | @one d _ t k hwait =>
    have hcount := signalled_update p t (.signalled d k) c
    have hu := hp (waits_of_update rfl hwaits)
    simp only [hwait, Phase.isSignalled, decide_eq_true_eq, Bool.false_eq_true, if_false] at hcount
    simp only [Option.some.injEq] at hu
    omega

/-- The thread that has the mutex was notified on no condition but that of its call. -/
private theorem signalled_enter {k : κ} (hplaced : Placed waitsOn (p t)) (hready : (p t).Ready k)
    (hv : v.isSignalled c = false) :
    signalled p c ≤
      signalled (Function.update p t v) c + if waitsOn k = some c then 1 else 0 := by
  have hcount := signalled_update p t v c
  have hphase : (p t).isSignalled c → waitsOn k = some c := by
    cases hp : p t with
    | signalled d k' =>
      rw [hp] at hplaced hready
      obtain rfl : k' = k := hready
      rintro hd
      obtain rfl : d = c := by simpa [Phase.isSignalled] using hd
      exact hplaced
    | _ => simp [Phase.isSignalled]
  rw [hv, if_neg Bool.false_ne_true] at hcount
  by_cases hsig : (p t).isSignalled c
  · rw [if_pos (hphase hsig)]
    simp only [hsig, if_true] at hcount
    omega
  · rw [if_neg hsig] at hcount
    omega

theorem Awake.step (haccounts : Accounts body I units waitsOn) (hs : Awake I units waitsOn s)
    {e : Option (Fin m × κ × ρ)} (h : Step body s e s') : Awake I units waitsOn s' := by
  cases h with
  | @blocks t k d hready hbody =>
    obtain ⟨hwaitsOn, hzero⟩ := haccounts.wait hs.holds hbody
    refine ⟨hs.holds, placed_update hs.placed hwaitsOn, fun c hc => ?_⟩
    by_cases hdc : d = c
    · subst hdc
      exact Nat.le_trans (Nat.le_of_eq hzero) (Nat.zero_le _)
    · have hunits := hs.awake c (waits_of_update (by simpa [Phase.isWaiting] using hdc) hc)
      have henter := signalled_enter (v := .waiting d k) (hs.placed t) hready
        (show Phase.isSignalled c _ = false from rfl)
      rw [hwaitsOn, if_neg (by simpa using hdc)] at henter
      exact Nat.le_trans hunits henter
  | @returns t k x' n r p' hready hbody hnotify =>
    refine ⟨haccounts.keep hs.holds hbody,
      hnotify.placed (placed_update hs.placed trivial), fun c => hnotify.awake fun hwaits => ?_⟩
    have hunits := hs.awake c (waits_of_update rfl hwaits)
    have henter := signalled_enter (v := .outside) (hs.placed t) hready
      (show Phase.isSignalled c _ = false from rfl)
    have hleave := haccounts.leave hs.holds hbody c
    show units c x' ≤ _
    omega
  | @wakes t d k hwait =>
    refine ⟨hs.holds, placed_update hs.placed trivial, fun c hc => ?_⟩
    have hunits := hs.awake c (waits_of_update rfl hc)
    have hcount := signalled_update s.phase t (.woken k) c
    simp only [hwait, Phase.isSignalled, Bool.false_eq_true, if_false] at hcount
    show units c s.shared ≤ signalled (Function.update s.phase t (.woken k)) c
    omega

/-- Threads are left waiting only when those notified suffice for the units there are. -/
theorem no_lost_wakeup (haccounts : Accounts body I units waitsOn) {x₀ : σ} (h₀ : I x₀)
    (h : Run (Step body) (init x₀) events s) : Awake I units waitsOn s := by
  refine h.invariant (fun hs hstep => hs.step haccounts hstep) ⟨h₀, fun _ => trivial, ?_⟩
  rintro c ⟨t, ht⟩
  simp [init, Phase.isWaiting] at ht

end Rules

end Monitor
