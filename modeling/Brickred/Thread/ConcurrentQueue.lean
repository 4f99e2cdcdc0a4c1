import Brickred.Lib.Monitor

/-!
# The concurrent queue

`ConcurrentQueue` is a monitor: each of its functions is one critical section under
`data_mutex_`, and `push` and `pop` wait on the two conditions in a loop around the
test, so that a section starts again from its test when a wait is over.
-/

namespace Brickred

open Monitor Transition

structure ConcurrentQueue (T : Type) where
  queue : List T
  maxSize : Nat
  isBounded : Bool

namespace ConcurrentQueue

variable {T θ : Type}

/-- `not_full_cond_` and `not_empty_cond_`. -/
inductive Cond where
  | notFull
  | notEmpty
  deriving DecidableEq

/-- The calls that threads make, with the items they pass. -/
inductive Call (T : Type) where
  | push (item : T)
  | pushIfNotFull (item : T)
  | pop
  | popIfNotEmpty
  | peek
  | size
  | empty
  | full

/-- What a call returns; a function with an `item` out parameter returns the item that
it stores there, if any. -/
inductive Result (T : Type) where
  | done
  | bool (b : Bool)
  | item (x : T)
  | found (x : Option T)
  | count (n : Nat)

/-- The queue that the constructor makes. -/
def new (maxSize : Nat) : ConcurrentQueue T := ⟨[], maxSize, maxSize != 0⟩

def fullNoLock (q : ConcurrentQueue T) : Bool :=
  if !q.isBounded then false else q.queue.length ≥ q.maxSize

abbrev Critical (T : Type) := Section (ConcurrentQueue T) Cond (Result T)

def push (item : T) (q : ConcurrentQueue T) : Critical T :=
  if q.fullNoLock then .wait .notFull
  else .leave { q with queue := q.queue ++ [item] } (some .notEmpty) .done

def pushIfNotFull (item : T) (q : ConcurrentQueue T) : Critical T :=
  if q.fullNoLock then .leave q none (.bool false)
  else .leave { q with queue := q.queue ++ [item] } (some .notEmpty) (.bool true)

def pop (q : ConcurrentQueue T) : Critical T :=
  match q.queue with
  | [] => .wait .notEmpty
  | front :: rest => .leave { q with queue := rest } (some .notFull) (.item front)

def popIfNotEmpty (q : ConcurrentQueue T) : Critical T :=
  match q.queue with
  | [] => .leave q none (.found none)
  | front :: rest => .leave { q with queue := rest } (some .notFull) (.found (some front))

def peek (q : ConcurrentQueue T) : Critical T := .leave q none (.found q.queue.head?)

def size (q : ConcurrentQueue T) : Critical T := .leave q none (.count q.queue.length)

def empty (q : ConcurrentQueue T) : Critical T := .leave q none (.bool q.queue.isEmpty)

def full (q : ConcurrentQueue T) : Critical T := .leave q none (.bool q.fullNoLock)

/-- The critical section of a call. -/
def run : Call T → ConcurrentQueue T → Critical T
  | .push item => push item
  | .pushIfNotFull item => pushIfNotFull item
  | .pop => pop
  | .popIfNotEmpty => popIfNotEmpty
  | .peek => peek
  | .size => size
  | .empty => empty
  | .full => full

/-- A run of threads that use a new queue, with the calls that have returned. -/
abbrev Runs [DecidableEq θ] (maxSize : Nat) (events : List (Option (θ × Call T × Result T)))
    (s : State θ (ConcurrentQueue T) (Call T) Cond) : Prop :=
  Run (Step run) (init (new maxSize)) events s

/-- The item that a call has put into the queue. -/
def pushedItem : θ × Call T × Result T → Option T
  | (_, .push x, .done) => some x
  | (_, .pushIfNotFull x, .bool true) => some x
  | _ => none

/-- The item that a call has taken out of the queue. -/
def poppedItem : θ × Call T × Result T → Option T
  | (_, .pop, .item x) => some x
  | (_, .popIfNotEmpty, .found x) => x
  | _ => none

def pushed (events : List (Option (θ × Call T × Result T))) : List T :=
  (returned events).filterMap pushedItem

def popped (events : List (Option (θ × Call T × Result T))) : List T :=
  (returned events).filterMap poppedItem

/-! ## What one section does -/

/-- The condition on which a call may wait: `push` does only if the queue is bounded. -/
def waitsOn (isBounded : Bool) : Call T → Option Cond
  | .push _ => if isBounded then some .notFull else none
  | .pop => some .notEmpty
  | _ => none

theorem bounded_of_waitsOn {isBounded : Bool} {k : Call T}
    (h : waitsOn isBounded k = some .notFull) : isBounded = true := by
  cases k with
  | push item =>
    simp only [waitsOn] at h
    split at h
    · assumption
    · cases h
  | _ => cases h

/-- How a section that goes on changes the queue: it appends the item it pushes, takes
the front item it pops, or leaves the queue as it is. -/
inductive Change (q : ConcurrentQueue T) (t : θ) (k : Call T) :
    ConcurrentQueue T → Option Cond → Result T → Prop where
  | pushed {r item} (hroom : q.fullNoLock = false) (hwait : waitsOn q.isBounded k ≠ some .notEmpty)
      (hpush : pushedItem (t, k, r) = some item) (hpop : poppedItem (t, k, r) = none) :
      Change q t k { q with queue := q.queue ++ [item] } (some .notEmpty) r
  | popped {r front rest} (hqueue : q.queue = front :: rest) (hwait : waitsOn q.isBounded k ≠ some .notFull)
      (hpush : pushedItem (t, k, r) = none) (hpop : poppedItem (t, k, r) = some front) :
      Change q t k { q with queue := rest } (some .notFull) r
  | looked {r} (hwait : waitsOn q.isBounded k = none) (hpush : pushedItem (t, k, r) = none)
      (hpop : poppedItem (t, k, r) = none) : Change q t k q none r

/-- What `fullNoLock` tells of a bounded queue and of an unbounded one. -/
theorem fullNoLock_eq_true {q : ConcurrentQueue T} :
    q.fullNoLock = true ↔ q.isBounded = true ∧ q.maxSize ≤ q.queue.length := by
  cases hq : q.isBounded <;> simp [fullNoLock, hq]

/-- A section waits only if it is `push` and the queue is full, or `pop` and it is
empty. -/
theorem section_wait {k : Call T} {q : ConcurrentQueue T} {c : Cond} (h : run k q = .wait c) :
    waitsOn q.isBounded k = some c ∧
      (c = .notFull ∧ q.fullNoLock = true ∨ c = .notEmpty ∧ q.queue = []) := by
  cases k with
  | push item =>
    simp only [run, push] at h
    split at h
    · cases h
      have hbounded := (fullNoLock_eq_true.mp ‹_›).1
      exact ⟨if_pos hbounded, .inl ⟨rfl, ‹_›⟩⟩
    · cases h
  | pushIfNotFull item =>
    simp only [run, pushIfNotFull] at h
    split at h <;> cases h
  | pop =>
    simp only [run, pop] at h
    split at h
    · cases h
      exact ⟨rfl, .inr ⟨rfl, ‹_›⟩⟩
    · cases h
  | popIfNotEmpty =>
    simp only [run, popIfNotEmpty] at h
    split at h <;> cases h
  | peek | size | empty | full => cases h

theorem section_leave (t : θ) {k : Call T} {q q' : ConcurrentQueue T} {n : Option Cond}
    {r : Result T} (h : run k q = .leave q' n r) : Change q t k q' n r := by
  cases k with
  | push item =>
    simp only [run, push] at h
    split at h
    · cases h
    · cases h
      exact .pushed (Bool.eq_false_iff.mpr ‹_›) (by simp [waitsOn]) rfl rfl
  | pushIfNotFull item =>
    simp only [run, pushIfNotFull] at h
    split at h
    · cases h
      exact .looked rfl rfl rfl
    · cases h
      exact .pushed (Bool.eq_false_iff.mpr ‹_›) (by simp [waitsOn]) rfl rfl
  | pop =>
    simp only [run, pop] at h
    split at h
    · cases h
    · cases h
      exact .popped ‹_› (by simp [waitsOn]) rfl rfl
  | popIfNotEmpty =>
    simp only [run, popIfNotEmpty] at h
    split at h
    · cases h
      exact .looked rfl rfl rfl
    · cases h
      exact .popped ‹_› (by simp [waitsOn]) rfl rfl
  | peek | size | empty | full =>
    cases h
    exact .looked rfl rfl rfl

/-- A step of a thread that is in `push`. -/
theorem push_shared [DecidableEq θ] {t : θ} {item : T} {r : Option (Result T)}
    {s s' : State θ (ConcurrentQueue T) (Call T) Cond} (h : StepOf run t (.push item) s r s') :
    (r = none ∧ s'.shared = s.shared) ∨
      (r = some .done ∧ s'.shared.queue = s.shared.queue ++ [item]) := by
  obtain ⟨rfl, hs⟩ | ⟨n, r', rfl, hbody⟩ := h.shared
  · exact .inl ⟨rfl, hs⟩
  · simp only [run, push] at hbody
    split at hbody
    · cases hbody
    · injection hbody with hs _ hr
      rw [← hs, ← hr]
      exact .inr ⟨rfl, rfl⟩

/-- A step of a thread that is in `pop`. -/
theorem pop_shared [DecidableEq θ] {t : θ} {r : Option (Result T)}
    {s s' : State θ (ConcurrentQueue T) (Call T) Cond} (h : StepOf run t .pop s r s') :
    (r = none ∧ s'.shared = s.shared) ∨
      ∃ item, r = some (.item item) ∧ s.shared.queue = item :: s'.shared.queue := by
  obtain ⟨rfl, hs⟩ | ⟨n, r', rfl, hbody⟩ := h.shared
  · exact .inl ⟨rfl, hs⟩
  · simp only [run, pop] at hbody
    split at hbody
    · cases hbody
    next front rest hqueue =>
      injection hbody with hs _ hr
      rw [← hs, ← hr, hqueue]
      exact .inr ⟨front, rfl, rfl⟩

section Parts

variable [DecidableEq θ] {t : θ} {item : T} {r : Result T}
  {s s' : State θ (ConcurrentQueue T) (Call T) Cond}

/-- On the way to its end `push` leaves the queue as it is. -/
theorem push_waits (h : StepOf run t (.push item) s none s') : s'.shared = s.shared := by
  obtain ⟨-, hshared⟩ | ⟨hr, -⟩ := push_shared h
  · exact hshared
  · cases hr

theorem push_done (h : StepOf run t (.push item) s (some r) s') :
    s'.shared.queue = s.shared.queue ++ [item] := by
  obtain ⟨hr, -⟩ | ⟨-, hqueue⟩ := push_shared h
  · cases hr
  · exact hqueue

/-- On the way to its end `pop` leaves the queue as it is. -/
theorem pop_waits (h : StepOf run t .pop s none s') : s'.shared = s.shared := by
  obtain ⟨-, hshared⟩ | ⟨item, hr, -⟩ := pop_shared h
  · exact hshared
  · cases hr

theorem pop_item (h : StepOf run t .pop s (some (.item item)) s') :
    s.shared.queue = item :: s'.shared.queue := by
  obtain ⟨hr, -⟩ | ⟨item', hr, hqueue⟩ := pop_shared h
  · cases hr
  · cases hr
    exact hqueue

end Parts

/-- A step of a thread that is in `popIfNotEmpty`. -/
theorem popIfNotEmpty_shared [DecidableEq θ] {t : θ} {r : Option (Result T)}
    {s s' : State θ (ConcurrentQueue T) (Call T) Cond} (h : StepOf run t .popIfNotEmpty s r s') :
    (r = none ∧ s'.shared = s.shared) ∨
      (r = some (.found none) ∧ s.shared.queue = [] ∧ s'.shared.queue = []) ∨
      ∃ item, r = some (.found (some item)) ∧ s.shared.queue = item :: s'.shared.queue := by
  obtain ⟨rfl, hs⟩ | ⟨n, r', rfl, hbody⟩ := h.shared
  · exact .inl ⟨rfl, hs⟩
  · simp only [run, popIfNotEmpty] at hbody
    split at hbody
    next hqueue =>
      injection hbody with hs _ hr
      rw [← hs, ← hr]
      exact .inr (.inl ⟨rfl, hqueue, hqueue⟩)
    next front rest hqueue =>
      injection hbody with hs _ hr
      rw [← hs, ← hr, hqueue]
      exact .inr (.inr ⟨front, rfl, rfl⟩)

/-! ## What holds of a run -/

/-- The queue is one made for `maxSize` items, and holds no more. -/
structure Within (maxSize : Nat) (q : ConcurrentQueue T) : Prop where
  maxSize_eq : q.maxSize = maxSize
  isBounded_eq : q.isBounded = (maxSize != 0)
  length_le : q.isBounded → q.queue.length ≤ maxSize

theorem within_new (maxSize : Nat) : Within maxSize (new maxSize : ConcurrentQueue T) :=
  ⟨rfl, rfl, fun _ => Nat.zero_le _⟩

theorem Within.room {maxSize : Nat} {q : ConcurrentQueue T} (hq : Within maxSize q)
    (hroom : q.fullNoLock = false) (hbounded : q.isBounded = true) :
    q.queue.length < maxSize := by
  by_contra hle
  rw [← hq.maxSize_eq] at hle
  rw [fullNoLock_eq_true.mpr ⟨hbounded, Nat.le_of_not_lt hle⟩] at hroom
  cases hroom

theorem Within.change {maxSize : Nat} {q q' : ConcurrentQueue T} {t : θ} {k : Call T}
    {n : Option Cond} {r : Result T} (hq : Within maxSize q) (h : Change q t k q' n r) :
    Within maxSize q' := by
  cases h with
  | pushed hroom =>
    refine ⟨hq.maxSize_eq, hq.isBounded_eq, fun hbounded => ?_⟩
    rw [List.length_append, List.length_singleton]
    exact hq.room hroom hbounded
  | popped hqueue =>
    refine ⟨hq.maxSize_eq, hq.isBounded_eq, fun hbounded => ?_⟩
    have hle := hq.length_le hbounded
    rw [hqueue, List.length_cons] at hle
    exact Nat.le_of_succ_le hle
  | looked => exact hq

/-- The items or the free slots that the threads on a condition wait for. -/
def units (maxSize : Nat) : Cond → ConcurrentQueue T → Nat
  | .notFull, q => maxSize - q.queue.length
  | .notEmpty, q => q.queue.length

/-- Each section that adds an item notifies a thread that waits for one, and each that
takes an item notifies a thread that waits for a slot. -/
theorem accounts (maxSize : Nat) :
    Accounts (run (T := T)) (Within maxSize) (units maxSize) (waitsOn (maxSize != 0)) where
  keep hq h := hq.change (section_leave () h)
  wait hq h := by
    obtain ⟨hwait, hc⟩ := section_wait h
    rw [hq.isBounded_eq] at hwait
    refine ⟨hwait, ?_⟩
    rcases hc with ⟨rfl, hfull⟩ | ⟨rfl, hempty⟩
    · have hle := (fullNoLock_eq_true.mp hfull).2
      rw [hq.maxSize_eq] at hle
      exact Nat.sub_eq_zero_of_le hle
    · simp [units, hempty]
  leave {k q q' n r} hq h c := by
    have hchange := section_leave () h
    rw [← hq.isBounded_eq]
    cases hchange with
    | pushed hroom hwait =>
      cases c with
      | notFull =>
        simp only [units, List.length_append, List.length_singleton, reduceCtorEq, if_false,
          Option.some.injEq]
        split
        · -- only in a bounded queue does the call wait for the slot it takes
          have hlt := hq.room hroom (bounded_of_waitsOn ‹_›)
          omega
        · omega
      | notEmpty => simp [units, hwait]
    | popped hqueue hwait =>
      cases c with
      | notFull =>
        simp only [units, hqueue, List.length_cons, if_neg hwait, if_true]
        omega
      | notEmpty =>
        simp only [units, hqueue, List.length_cons, reduceCtorEq, if_false, Option.some.injEq]
        split <;> omega
    | looked hwait => simp [hwait]

/-- The items pushed are those popped, in the same order, and then those in the queue. -/
theorem pushed_eq [DecidableEq θ] {maxSize : Nat} {events : List (Option (θ × Call T × Result T))}
    {s : State θ (ConcurrentQueue T) (Call T) Cond} (h : Runs maxSize events s) :
    pushed events = popped events ++ s.shared.queue := by
  refine shared_invariant (I := fun calls q =>
    calls.filterMap pushedItem = calls.filterMap poppedItem ++ q.queue) ?_ h rfl
  intro calls q t k q' n r hcalls hrun
  simp only [List.filterMap_append, hcalls]
  cases section_leave t hrun with
  | pushed _ _ hpush hpop => simp [hpush, hpop]
  | popped hqueue _ hpush hpop => simp [hpush, hpop, hqueue]
  | looked _ hpush hpop => simp [hpush, hpop]

/-- The items popped are a prefix of the items pushed, a bounded queue never holds more
than `maxSize` items, and whenever a thread waits unnotified the items, or the free slots,
are no more than the threads that were notified and have not resumed. -/
theorem queue_runs {threads maxSize : Nat}
    {events : List (Option (Fin threads × Call T × Result T))}
    {s : State (Fin threads) (ConcurrentQueue T) (Call T) Cond} (h : Runs maxSize events s) :
    pushed events = popped events ++ s.shared.queue ∧
      (maxSize ≠ 0 → s.shared.queue.length ≤ maxSize) ∧
      (∀ t, s.phase t = .waiting .notEmpty .pop →
        s.shared.queue.length ≤ signalled s.phase .notEmpty) ∧
      ∀ t item, s.phase t = .waiting .notFull (.push item) →
        maxSize ≠ 0 ∧ maxSize - s.shared.queue.length ≤ signalled s.phase .notFull := by
  have hend := no_lost_wakeup (accounts maxSize) (within_new maxSize) h
  refine ⟨pushed_eq h, fun hbound => ?_, fun t ht => ?_, fun t item ht => ⟨?_, ?_⟩⟩
  · exact hend.holds.length_le (by simpa [hend.holds.isBounded_eq] using hbound)
  · exact hend.awake .notEmpty ⟨t, by simp [ht, Phase.isWaiting]⟩
  · have hplaced := hend.placed t
    rw [ht] at hplaced
    simpa using bounded_of_waitsOn hplaced
  · exact hend.awake .notFull ⟨t, by simp [ht, Phase.isWaiting]⟩

/-- Two threads wait for an item, and one of them is notified of the item that a third
thread pushes. -/
theorem queue_runs_notified : ∃ s : State (Fin 3) (ConcurrentQueue Nat) (Call Nat) Cond,
    Runs 1 [none, none, some (2, .push 5, .done)] s ∧ s.phase 1 = .waiting .notEmpty .pop ∧
      s.shared.queue = [5] ∧ s.shared.queue.length ≤ signalled s.phase .notEmpty := by
  have hrun : Runs (θ := Fin 3) 1 [none, none, some (2, .push 5, .done)] _ :=
    .cons (.blocks (t := 0) (k := .pop) trivial rfl) <|
    .cons (.blocks (t := 1) (k := .pop) trivial rfl) <|
    .cons (.returns trivial rfl (.one (t := 0) (k := .pop) rfl)) .nil
  exact ⟨_, hrun, rfl, rfl, (queue_runs hrun).2.2.1 1 rfl⟩

end ConcurrentQueue

end Brickred
