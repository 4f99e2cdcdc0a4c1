import Mathlib.Logic.Equiv.Basic
import Brickred.RankSet.Interface

/-!
# Programs over many `RankSet`s

A `World` is a heap and the `RankSet` objects alive in it; `World.step` runs one
member function on it, the assignments as the header writes them (a temporary,
a swap, the temporary's destructor). The reference is a sorted duplicate-free
list per object.

`Sim` relates the two: every object represents its list, and no two objects
share a node. `step_sim` preserves it; a step that is undefined in C++ (`none`)
is thereby impossible in a program that only uses objects that are alive.
-/

namespace Brickred

open RedBlack HeapTree Function

variable {T : Type}

/-- The heap, and the live objects by their ids. -/
structure World (T : Type) where
  mem : Memory T
  sets : Nat → Option (RankSet T)

/-- The member functions a program calls. `eraseAt o k` is `erase(Iterator)` with
the `k`-th iterator counted from `begin()`. -/
inductive Op (T : Type)
  | construct (o : Nat)
  | copyConstruct (o other : Nat)
  | moveConstruct (o other : Nat)
  | copyAssign (o other : Nat)
  | moveAssign (o other : Nat)
  | swap (o other : Nat)
  | clear (o : Nat)
  | insert (o : Nat) (value : T)
  | eraseValue (o : Nat) (value : T)
  | eraseAt (o : Nat) (k : Nat)
  | destruct (o : Nat)

/-- What a member function returns. -/
inductive Result
  | void
  | pair (iter : Addr) (inserted : Bool)
  | count (n : Nat)
  | iter (iter : Addr)

namespace Op

/-- The objects a call may change. -/
def targets : Op T → List Nat
  | construct o | copyConstruct o _ | copyAssign o _ | clear o | insert o _ | eraseValue o _
  | eraseAt o _ | destruct o => [o]
  | moveConstruct o other | moveAssign o other | swap o other => [o, other]

end Op

namespace World

variable [Inhabited T] (lt : T → T → Bool)

def empty : World T := ⟨.empty, fun _ => none⟩

/-- One call. -/
def step (w : World T) : Op T → Option (World T × Result)
  | .construct o => do
    if (w.sets o).isSome then none
    else
      let (m, s) ← RankSet.construct lt w.mem
      some (⟨m, update w.sets o (some s)⟩, .void)
  | .copyConstruct o other => do
    if (w.sets o).isSome then none
    else
      let (m, s) ← RankSet.copyConstruct w.mem (← w.sets other)
      some (⟨m, update w.sets o (some s)⟩, .void)
  | .moveConstruct o other => do
    if (w.sets o).isSome then none
    else
      let (m, s, s') ← RankSet.moveConstruct w.mem (← w.sets other)
      some (⟨m, update (update w.sets other (some s')) o (some s)⟩, .void)
  | .copyAssign o other => do
    let s ← w.sets o
    if o ≠ other then
      let (m, tmp) ← RankSet.copyConstruct w.mem (← w.sets other)
      let m ← s.destruct m
      some (⟨m, update w.sets o (some tmp)⟩, .void)
    else some (w, .void)
  | .moveAssign o other => do
    let (m, tmp, s') ← RankSet.moveConstruct w.mem (← w.sets other)
    let sets := update w.sets other (some s')
    -- swap, then the temporary's destructor
    let s ← sets o
    let m ← s.destruct m
    some (⟨m, update sets o (some tmp)⟩, .void)
  | .swap o other => do
    let s ← w.sets o
    let s' ← w.sets other
    some (⟨w.mem, update (update w.sets o (some s')) other (some s)⟩, .void)
  | .clear o => do
    let m ← (← w.sets o).clear w.mem
    some (⟨m, w.sets⟩, .void)
  | .insert o value => do
    let (m, iter, b) ← (← w.sets o).insert w.mem value
    some (⟨m, w.sets⟩, .pair iter b)
  | .eraseValue o value => do
    let (m, n) ← (← w.sets o).eraseValue w.mem value
    some (⟨m, w.sets⟩, .count n)
  | .eraseAt o k => do
    let s ← w.sets o
    let iter ← s.next w.mem k (← s.begin w.mem)
    let (m, iter) ← s.eraseIter w.mem iter
    some (⟨m, w.sets⟩, .iter iter)
  | .destruct o => do
    let m ← (← w.sets o).destruct w.mem
    some (⟨m, update w.sets o none⟩, .void)

/-- A program: the calls in order. -/
def run : World T → List (Op T) → Option (World T)
  | w, [] => some w
  | w, op :: ops => do
    let (w, _) ← w.step lt op
    run w ops

end World

/-! ## The reference -/

/-- The contents of the live objects. -/
abbrev Ref (T : Type) := Nat → Option (List T)

namespace Ref

variable (lt : T → T → Bool)

/-- One call on the reference; `none` when it names an object that does not
exist, or constructs one that does. -/
def step (ref : Ref T) : Op T → Option (Ref T)
  | .construct o => if (ref o).isSome then none else some (update ref o (some []))
  | .copyConstruct o other => if (ref o).isSome then none else do
      some (update ref o (some (← ref other)))
  | .moveConstruct o other => if (ref o).isSome then none else do
      some (update (update ref other (some [])) o (some (← ref other)))
  | .copyAssign o other => do
      let _ ← ref o
      some (update ref o (some (← ref other)))
  | .moveAssign o other => do
      let _ ← ref o
      some (update (update ref other (some [])) o (some (← ref other)))
  | .swap o other => do
      some (update (update ref o (some (← ref other))) other (some (← ref o)))
  | .clear o => do
      let _ ← ref o
      some (update ref o (some []))
  | .insert o value => do some (update ref o (some (SortedList.insert lt value (← ref o))))
  | .eraseValue o value => do some (update ref o (some (SortedList.erase lt value (← ref o))))
  | .eraseAt o k => do some (update ref o (some ((← ref o).eraseIdx k)))
  | .destruct o => do
      let _ ← ref o
      some (update ref o none)

def run : Ref T → List (Op T) → Option (Ref T)
  | ref, [] => some ref
  | ref, op :: ops => do run (← ref.step lt op) ops

end Ref

/-! ## The simulation -/

/-- Each live object represents its reference list by a tree of its own. -/
structure Sim [Inhabited T] (lt : T → T → Bool) (w : World T) (ref : Ref T)
    (ts : Nat → RBTree (Item T)) : Prop where
  dead : ∀ o, w.sets o = none → ref o = none
  ref : ∀ o s, w.sets o = some s → ref o = some (values (ts o))
  cmp : ∀ o s, w.sets o = some s → s.compareFunc = lt
  inv : ∀ o s, w.sets o = some s → SetInv w.mem s default (ts o)
  sorted : ∀ o s, w.sets o = some s → SortedList.Sorted lt (values (ts o))
  disjoint : ∀ o p s s', o ≠ p → w.sets o = some s → w.sets p = some s' →
    ∀ a ∈ s.header :: addrs (ts o), a ∉ s'.header :: addrs (ts p)

theorem HeapTree.SetInv.frame {m m' : Memory T} {s : RankSet T} {v : T} {t : RBTree (Item T)}
    {S : List Addr} (h : SetInv m s v t) (hm : ObjectHeap.Outside S m m')
    (hS : ∀ a ∈ s.header :: addrs t, a ∉ S) : SetInv m' s v t := by
  have hoff : ∀ a ∈ s.header :: addrs t, m'.cell a = m.cell a := fun a ha => by
    obtain ⟨n, hn⟩ := h.rep.cell_ne_none a ha
    exact hm.2 a (ObjectHeap.lt_next hn) (hS a ha)
  exact ⟨⟨(hoff _ (by simp)).trans h.rep.headerCell,
    h.rep.tree.congr fun a ha => hoff a (by simp [ha]), h.rep.nodup⟩, h.isRB⟩

namespace Sim

variable [Inhabited T] {lt : T → T → Bool} {w : World T} {ref : Ref T} {ts : Nat → RBTree (Item T)}

theorem empty : Sim lt (World.empty : World T) (fun _ => none) (fun _ => .nil) where
  dead _ _ := rfl
  ref _ _ h := by cases h
  cmp _ _ h := by cases h
  inv _ _ h := by cases h
  sorted _ _ h := by cases h
  disjoint _ _ _ _ _ h := by cases h

/-- A step that leaves every object either as some object was before, on memory
that was not written, or makes it anew, out of written or fresh memory. -/
theorem rebuild (h : Sim lt w ref ts) {m' : Memory T} {S : List Addr}
    {sets' : Nat → Option (RankSet T)} {ref' : Ref T} {ts' : Nat → RBTree (Item T)}
    (src : Nat → Option Nat) (hm : ObjectHeap.Outside S w.mem m')
    (hkept : ∀ {o p}, src o = some p → sets' o = w.sets p ∧ ref' o = ref p ∧ ts' o = ts p ∧
      ∀ s, w.sets p = some s → ∀ a ∈ s.header :: addrs (ts p), a ∉ S)
    (hinj : ∀ {o o' p}, src o = some p → src o' = some p → o = o')
    (hdead : ∀ {o}, src o = none → sets' o = none → ref' o = none)
    (hnew : ∀ {o s}, src o = none → sets' o = some s → s.compareFunc = lt ∧
      SetInv m' s default (ts' o) ∧ SortedList.Sorted lt (values (ts' o)) ∧
      ref' o = some (values (ts' o)) ∧
      ∀ a ∈ s.header :: addrs (ts' o), a ∈ S ∨ w.mem.next ≤ a)
    (huniq : ∀ {o o'}, src o = none → src o' = none → o = o') :
    Sim lt ⟨m', sets'⟩ ref' ts' where
  dead o ho := by
    cases hs : src o with
    | none => exact hdead hs ho
    | some p =>
      obtain ⟨h₁, h₂, -⟩ := hkept hs
      rw [h₂]
      exact h.dead p (h₁ ▸ ho)
  ref o s ho := by
    cases hs : src o with
    | none => exact (hnew hs ho).2.2.2.1
    | some p =>
      obtain ⟨h₁, h₂, h₃, -⟩ := hkept hs
      rw [h₂, h₃]
      exact h.ref p s (h₁ ▸ ho)
  cmp o s ho := by
    cases hs : src o with
    | none => exact (hnew hs ho).1
    | some p => exact h.cmp p s ((hkept hs).1 ▸ ho)
  inv o s ho := by
    cases hs : src o with
    | none => exact (hnew hs ho).2.1
    | some p =>
      obtain ⟨h₁, -, h₃, h₄⟩ := hkept hs
      have hp : w.sets p = some s := h₁ ▸ ho
      rw [h₃]
      exact (h.inv p s hp).frame hm (h₄ s hp)
  sorted o s ho := by
    cases hs : src o with
    | none => exact (hnew hs ho).2.2.1
    | some p =>
      obtain ⟨h₁, -, h₃, -⟩ := hkept hs
      rw [h₃]
      exact h.sorted p s (h₁ ▸ ho)
  disjoint o o' s s' hne ho ho' a ha ha' := by
    -- an old object has old addresses outside `S`
    have hold : ∀ {o p s}, src o = some p → sets' o = some s → a ∈ s.header :: addrs (ts' o) →
        a ∉ S ∧ a < w.mem.next := fun {o p s} hs ho ha => by
      obtain ⟨h₁, -, h₃, h₄⟩ := hkept hs
      have hp : w.sets p = some s := h₁ ▸ ho
      rw [h₃] at ha
      obtain ⟨n, hn⟩ := (h.inv p s hp).rep.cell_ne_none a ha
      exact ⟨h₄ s hp a ha, ObjectHeap.lt_next hn⟩
    cases hs : src o with
    | none =>
      cases hs' : src o' with
      | none => exact hne (huniq hs hs')
      | some p' =>
        obtain ⟨h₁, h₂⟩ := hold hs' ho' ha'
        rcases (hnew hs ho).2.2.2.2 a ha with h' | h'
        · exact h₁ h'
        · exact absurd h₂ (Nat.not_lt_of_le h')
    | some p =>
      cases hs' : src o' with
      | none =>
        obtain ⟨h₁, h₂⟩ := hold hs ho ha
        rcases (hnew hs' ho').2.2.2.2 a ha' with h' | h'
        · exact h₁ h'
        · exact absurd h₂ (Nat.not_lt_of_le h')
      | some p' =>
        obtain ⟨h₁, -, h₃, -⟩ := hkept hs
        obtain ⟨h₁', -, h₃', -⟩ := hkept hs'
        rw [h₃] at ha
        rw [h₃'] at ha'
        exact h.disjoint p p' s s' (fun he => hne (hinj hs (he ▸ hs'))) (h₁ ▸ ho) (h₁' ▸ ho') a
          ha ha'

/-- The memory of one object. -/
def own (w : World T) (ts : Nat → RBTree (Item T)) (o : Nat) : List Addr :=
  match w.sets o with
  | none => []
  | some s => s.header :: addrs (ts o)

theorem not_mem_own (h : Sim lt w ref ts) {o p : Nat} (hne : p ≠ o) {s : RankSet T}
    (hp : w.sets p = some s) : ∀ a ∈ s.header :: addrs (ts p), a ∉ own w ts o := by
  intro a ha
  cases ho : w.sets o with
  | none => simp [own, ho]
  | some s' =>
    rw [own, ho]
    exact h.disjoint p o s s' hne hp ho a ha

/-- One object gets a new value, out of its own or fresh memory, or is gone. -/
theorem put (h : Sim lt w ref ts) {m' : Memory T} {o : Nat} {x : Option (RankSet T)}
    {t : RBTree (Item T)} (hm : ObjectHeap.Outside (own w ts o) w.mem m')
    (hx : ∀ s, x = some s → s.compareFunc = lt ∧ SetInv m' s default t ∧
      SortedList.Sorted lt (values t) ∧ ∀ a ∈ s.header :: addrs t, a ∈ own w ts o ∨ w.mem.next ≤ a) :
    Sim lt ⟨m', update w.sets o x⟩ (update ref o (x.map fun _ => values t)) (update ts o t) := by
  have hsrc : ∀ {p q}, (if p = o then none else some p) = some q → p ≠ o ∧ p = q := by
    intro p q hq
    by_cases hp : p = o
    · simp [hp] at hq
    · exact ⟨hp, by simpa [hp] using hq⟩
  have hsrc' : ∀ {p : Nat}, (if p = o then none else some p) = none → p = o := by
    intro p hp
    by_contra hpo
    simp [hpo] at hp
  refine h.rebuild (S := own w ts o) (fun p => if p = o then none else some p) hm ?_ ?_ ?_ ?_ ?_
  · intro p q hq
    obtain ⟨hp, rfl⟩ := hsrc hq
    exact ⟨update_of_ne hp _ _, update_of_ne hp _ _, update_of_ne hp _ _,
      fun s hs => h.not_mem_own hp hs⟩
  · intro p p' q hq hq'
    exact (hsrc hq).2.trans (hsrc hq').2.symm
  · intro p hp hdead
    obtain rfl := hsrc' hp
    rw [update_self] at hdead ⊢
    rw [hdead]
    rfl
  · intro p s hp hs
    obtain rfl := hsrc' hp
    rw [update_self] at hs
    obtain ⟨hcmp, hinv, hsort, hown⟩ := hx s hs
    rw [update_self, update_self, hs]
    exact ⟨hcmp, hinv, hsort, rfl, hown⟩
  · intro p p' hp hp'
    rw [hsrc' hp, hsrc' hp']

/-- `put` for an object that stays alive. -/
theorem assign (h : Sim lt w ref ts) {m' : Memory T} {o : Nat} {s' : RankSet T}
    {t' : RBTree (Item T)} (hm : ObjectHeap.Outside (own w ts o) w.mem m')
    (hinv : SetInv m' s' default t') (hcmp : s'.compareFunc = lt) (hsort : SortedList.Sorted lt (values t'))
    (hown : ∀ a ∈ s'.header :: addrs t', a ∈ own w ts o ∨ w.mem.next ≤ a) :
    Sim lt ⟨m', update w.sets o (some s')⟩ (update ref o (some (values t'))) (update ts o t') := by
  refine h.put hm fun s hs => ?_
  obtain rfl := Option.some.inj hs
  exact ⟨hcmp, hinv, hsort, hown⟩

/-- Two objects change places. -/
theorem exchange (h : Sim lt w ref ts) (o p : Nat) :
    Sim lt ⟨w.mem, update (update w.sets o (w.sets p)) p (w.sets o)⟩
      (update (update ref o (ref p)) p (ref o)) (update (update ts o (ts p)) p (ts o)) := by
  rw [← Equiv.comp_swap_eq_update, ← Equiv.comp_swap_eq_update, ← Equiv.comp_swap_eq_update]
  refine h.rebuild (S := []) (fun q => some (Equiv.swap p o q))
    ⟨Nat.le_refl _, fun _ _ _ => rfl⟩ ?_ ?_ ?_ ?_ ?_
  · intro q q' hq
    obtain rfl := Option.some.inj hq
    exact ⟨rfl, rfl, rfl, by simp⟩
  · intro q q' r hq hq'
    exact (Equiv.swap p o).injective (Option.some.inj (hq.trans hq'.symm))
  · intro q hq
    cases hq
  · intro q s hq
    cases hq
  · intro q q' hq
    cases hq

theorem live (h : Sim lt w ref ts) {o : Nat} {l : List T} (ho : ref o = some l) :
    ∃ s, w.sets o = some s ∧ s.compareFunc = lt ∧ SetInv w.mem s default (ts o) ∧
      SortedList.Sorted lt (values (ts o)) ∧ l = values (ts o) ∧
      own w ts o = s.header :: addrs (ts o) := by
  cases hs : w.sets o with
  | none =>
    rw [h.dead o hs] at ho
    cases ho
  | some s =>
    have hl := h.ref o s hs
    rw [ho] at hl
    refine ⟨s, rfl, h.cmp o s hs, h.inv o s hs, h.sorted o s hs, Option.some.inj hl, ?_⟩
    rw [own, hs]

theorem not_live (h : Sim lt w ref ts) {o : Nat} (ho : ref o = none) : w.sets o = none := by
  cases hs : w.sets o with
  | none => rfl
  | some s =>
    rw [h.ref o s hs] at ho
    cases ho

/-- The in-order walk over a live object. -/
theorem contents (h : Sim lt w ref ts) {o : Nat} {s : RankSet T} (ho : w.sets o = some s) :
    s.contents w.mem = some (ts o).toList :=
  (h.inv o s ho).contents_eq

end Sim

/-! ## Every step simulates -/

section Step

variable [Inhabited T] {lt : T → T → Bool} {w : World T} {ref ref' : Ref T}
  {ts : Nat → RBTree (Item T)}

/-- What a call returns, in terms of the trees before and after it. -/
def Returns (lt : T → T → Bool) (w : World T) (ts ts' : Nat → RBTree (Item T)) : Op T → Result → Prop
  | .insert o value, r => ∃ s iter, w.sets o = some s ∧
      r = .pair iter (!SortedList.contains lt value (values (ts o))) ∧
      iter = iterAt s.header (ts' o).toList (SortedList.find lt value (values (ts' o))) ∧
      if SortedList.contains lt value (values (ts o)) then (ts' o).toList = (ts o).toList
      else ∃ L R, (ts o).toList = L ++ R ∧ (ts' o).toList = L ++ (iter, value) :: R
  | .eraseValue o value, r =>
      r = .count (if SortedList.contains lt value (values (ts o)) then 1 else 0)
  | .eraseAt o k, r => ∃ s, w.sets o = some s ∧ r = .iter (iterAt s.header (ts' o).toList k)
  | _, r => r = .void

/-- The simulation of one call. -/
def StepSim (lt : T → T → Bool) (w : World T) (ref' : Ref T) (ts : Nat → RBTree (Item T))
    (op : Op T) : Prop :=
  ∃ w' r ts', w.step lt op = some (w', r) ∧ Sim lt w' ref' ts' ∧
    (∀ p, p ∉ op.targets → w'.sets p = w.sets p ∧ ts' p = ts p) ∧ Returns lt w ts ts' op r

theorem construct_sim (h : Sim lt w ref ts) {o : Nat}
    (hop : ref.step lt (.construct o) = some ref') : StepSim lt w ref' ts (.construct o) := by
  obtain ⟨ho, rfl⟩ : ref o = none ∧ update ref o (some []) = ref' := by
    simpa [Ref.step] using hop
  have hdead := h.not_live ho
  obtain ⟨m', e, hinv, hout⟩ := RankSet.construct_spec w.mem lt
  refine ⟨_, .void, _, ?_, h.assign (o := o) (by simpa [Sim.own, hdead] using hout) hinv rfl
    List.Pairwise.nil ?_, ?_, rfl⟩
  · simp [World.step, hdead, e]
  · simp
  · intro p hp
    have hne : p ≠ o := by simpa [Op.targets] using hp
    exact ⟨update_of_ne hne _ _, update_of_ne hne _ _⟩

/-- A call on one object changes that object only. -/
theorem frame_one {α : Type} (f : Nat → α) {o p : Nat} (x : α) (hp : p ∉ [o]) :
    update f o x p = f p :=
  update_of_ne (by simpa using hp) _ _

theorem update_move {α : Type} (f : Nat → α) {o p : Nat} (x y z : α) (hne : p ≠ o) :
    update (update (update f o x) p y) p z = update (update f p z) o x := by
  rw [update_idem, update_comm hne.symm]

theorem copyConstruct_sim (h : Sim lt w ref ts) {o other : Nat}
    (hop : ref.step lt (.copyConstruct o other) = some ref') :
    StepSim lt w ref' ts (.copyConstruct o other) := by
  obtain ⟨ho, l, hl, rfl⟩ : ref o = none ∧ ∃ l, ref other = some l ∧
      update ref o (some l) = ref' := by
    simpa [Ref.step, Option.bind_eq_some_iff] using hop
  have hdead := h.not_live ho
  obtain ⟨s, hs, rfl, hinv, hsort, rfl, -⟩ := h.live hl
  obtain ⟨m', t', e, hinv', hval, hfresh, hout⟩ := RankSet.copyConstruct_spec hinv
  have hx := h.assign (o := o) (by simpa [Sim.own, hdead] using hout) hinv' rfl (hval ▸ hsort)
    fun a ha => .inr (by
      rcases List.mem_cons.mp ha with rfl | ha
      · exact Nat.le_refl _
      · exact Nat.le_of_lt (hfresh a ha))
  rw [hval] at hx
  refine ⟨_, .void, _, ?_, hx, fun p hp => ⟨frame_one _ _ hp, frame_one _ _ hp⟩, rfl⟩
  simp [World.step, hdead, hs, e]

theorem moveConstruct_sim (h : Sim lt w ref ts) {o other : Nat}
    (hop : ref.step lt (.moveConstruct o other) = some ref') :
    StepSim lt w ref' ts (.moveConstruct o other) := by
  obtain ⟨ho, l, hl, rfl⟩ : ref o = none ∧ ∃ l, ref other = some l ∧
      update (update ref other (some [])) o (some l) = ref' := by
    simpa [Ref.step, Option.bind_eq_some_iff] using hop
  have hdead := h.not_live ho
  have hne : other ≠ o := by
    rintro rfl
    rw [ho] at hl
    cases hl
  obtain ⟨s, hs, rfl, hinv, hsort, rfl, -⟩ := h.live hl
  obtain ⟨m', e, hinv', hout⟩ := RankSet.moveConstruct_spec w.mem s
  -- the two objects change places, then `other` gets a new header
  have hx := (h.exchange o other).assign (o := other) (by simpa [Sim.own, hdead] using hout) hinv'
    rfl List.Pairwise.nil (by simp)
  rw [update_move _ _ _ _ hne, update_move _ _ _ _ hne, update_move _ _ _ _ hne, hs, hl] at hx
  refine ⟨_, .void, _, ?_, hx, fun p hp => ?_, rfl⟩
  · simp [World.step, hdead, hs, e]
  · simp only [Op.targets, List.mem_cons, List.not_mem_nil, or_false, not_or] at hp
    simp [hp.1, hp.2]

theorem copyAssign_sim (h : Sim lt w ref ts) {o other : Nat}
    (hop : ref.step lt (.copyAssign o other) = some ref') :
    StepSim lt w ref' ts (.copyAssign o other) := by
  obtain ⟨l, ho, l', hl, rfl⟩ : ∃ l, ref o = some l ∧ ∃ l', ref other = some l' ∧
      update ref o (some l') = ref' := by
    simpa [Ref.step, Option.bind_eq_some_iff] using hop
  obtain ⟨s, hs, -, hinv, -, rfl, hown⟩ := h.live ho
  obtain ⟨s', hs', rfl, hinv', hsort', rfl, -⟩ := h.live hl
  by_cases hne : o = other
  · subst hne
    refine ⟨w, .void, ts, by simp [World.step, hs], ?_, fun p _ => ⟨rfl, rfl⟩, rfl⟩
    rwa [← ho, update_eq_self]
  · obtain ⟨m₁, t', e₁, hinv₁, hval, hfresh, hout₁⟩ := RankSet.copyConstruct_spec hinv'
    have hold : ∀ a ∈ s.header :: addrs (ts o), a < w.mem.next := fun a ha => by
      obtain ⟨n, hn⟩ := hinv.rep.cell_ne_none a ha
      exact ObjectHeap.lt_next hn
    obtain ⟨m₂, e₂, hl₂⟩ := RankSet.destruct_spec (hinv.frame hout₁ (by simp))
    have hnew : ∀ a ∈ w.mem.next :: addrs t', w.mem.next ≤ a := fun a ha => by
      rcases List.mem_cons.mp ha with rfl | ha
      · exact Nat.le_refl _
      · exact Nat.le_of_lt (hfresh a ha)
    have hinv₂ := hinv₁.frame hl₂.outside fun a ha ha' =>
      Nat.not_lt_of_le (hnew a ha) (hold a ha')
    have hout : ObjectHeap.Outside (Sim.own w ts o) w.mem m₂ := by
      rw [hown]
      exact (hout₁.mono (by simp)).trans hl₂.outside fun a ha _ => ha
    have hx := h.assign hout hinv₂ rfl (hval ▸ hsort') fun a ha => .inr (hnew a ha)
    rw [hval] at hx
    refine ⟨_, .void, _, ?_, hx, fun p hp => ⟨frame_one _ _ hp, frame_one _ _ hp⟩, rfl⟩
    simp [World.step, hs, hs', hne, e₁, e₂]

theorem moveAssign_sim (h : Sim lt w ref ts) {o other : Nat}
    (hop : ref.step lt (.moveAssign o other) = some ref') :
    StepSim lt w ref' ts (.moveAssign o other) := by
  obtain ⟨l, ho, l', hl, rfl⟩ : ∃ l, ref o = some l ∧ ∃ l', ref other = some l' ∧
      update (update ref other (some [])) o (some l') = ref' := by
    simpa [Ref.step, Option.bind_eq_some_iff] using hop
  obtain ⟨s, hs, -, hinv, -, rfl, hown⟩ := h.live ho
  obtain ⟨s', hs', rfl, hinv', hsort', rfl, hown'⟩ := h.live hl
  obtain ⟨m₁, e₁, hinv₁, hout₁⟩ := RankSet.moveConstruct_spec w.mem s'
  by_cases hne : o = other
  · -- onto itself: the temporary destroys the fresh header
    subst hne
    obtain rfl : s = s' := Option.some.inj (hs.symm.trans hs')
    obtain ⟨m₂, e₂, hl₂⟩ := RankSet.destruct_spec hinv₁
    have hout : ObjectHeap.Outside [] w.mem m₂ := hout₁.trans hl₂.outside fun a ha hlt => by
      obtain rfl : a = w.mem.next := by simpa using ha
      exact absurd hlt (Nat.lt_irrefl _)
    have hx := h.assign (o := o) (hout.mono (by simp)) (hinv.frame hout (by simp)) rfl hsort'
      fun a ha => .inl (by rwa [hown])
    rw [update_eq_self] at hx
    refine ⟨⟨m₂, update w.sets o (some s)⟩, .void, ts, ?_, ?_, fun p hp => ⟨?_, rfl⟩, rfl⟩
    · simp [World.step, hs, e₁, e₂]
    · rwa [update_idem]
    · exact update_of_ne (by simpa [Op.targets] using hp) _ _
  · have hold : ∀ a ∈ s.header :: addrs (ts o), a < w.mem.next := fun a ha => by
      obtain ⟨n, hn⟩ := hinv.rep.cell_ne_none a ha
      exact ObjectHeap.lt_next hn
    obtain ⟨m₂, e₂, hl₂⟩ := RankSet.destruct_spec (hinv.frame hout₁ (by simp))
    have hinv₂ := hinv₁.frame hl₂.outside fun a ha ha' => by
      obtain rfl : a = w.mem.next := by simpa using ha
      exact Nat.lt_irrefl _ (hold _ ha')
    -- the two objects change places, then `other` gets a new header
    have hout : ObjectHeap.Outside (Sim.own ⟨w.mem, update (update w.sets o (w.sets other)) other
        (w.sets o)⟩ (update (update ts o (ts other)) other (ts o)) other) w.mem m₂ := by
      simp only [Sim.own, update_self, hs]
      exact (hout₁.mono (by simp)).trans hl₂.outside fun a ha _ => ha
    have hx := (h.exchange o other).assign hout hinv₂ rfl List.Pairwise.nil (by simp)
    have hne' : other ≠ o := fun he => hne he.symm
    rw [update_move _ _ _ _ hne', update_move _ _ _ _ hne', update_move _ _ _ _ hne', hs', hl] at hx
    refine ⟨_, .void, _, ?_, hx, fun p hp => ?_, rfl⟩
    · simp [World.step, hs, hs', hne, e₁, e₂]
    · simp only [Op.targets, List.mem_cons, List.not_mem_nil, or_false, not_or] at hp
      simp [hp.1, hp.2]

theorem swap_sim (h : Sim lt w ref ts) {o other : Nat}
    (hop : ref.step lt (.swap o other) = some ref') :
    StepSim lt w ref' ts (.swap o other) := by
  obtain ⟨l', hl, l, ho, rfl⟩ : ∃ l', ref other = some l' ∧ ∃ l, ref o = some l ∧
      update (update ref o (some l')) other (some l) = ref' := by
    simpa [Ref.step, Option.bind_eq_some_iff] using hop
  obtain ⟨s, hs, -⟩ := h.live ho
  obtain ⟨s', hs', -⟩ := h.live hl
  have hx := h.exchange o other
  rw [hs, hs', ho, hl] at hx
  refine ⟨_, .void, _, by simp [World.step, hs, hs'], hx, fun p hp => ?_, rfl⟩
  simp only [Op.targets, List.mem_cons, List.not_mem_nil, or_false, not_or] at hp
  simp [hp.1, hp.2]

theorem clear_sim (h : Sim lt w ref ts) {o : Nat} (hop : ref.step lt (.clear o) = some ref') :
    StepSim lt w ref' ts (.clear o) := by
  obtain ⟨l, ho, rfl⟩ : ∃ l, ref o = some l ∧ update ref o (some []) = ref' := by
    simpa [Ref.step, Option.bind_eq_some_iff] using hop
  obtain ⟨s, hs, rfl, hinv, -, -, hown⟩ := h.live ho
  obtain ⟨m', e, hinv', hl⟩ := RankSet.clear_spec hinv
  have hx := h.assign (hown ▸ hl.outside) hinv' rfl List.Pairwise.nil (by simp [hown])
  rw [← hs, update_eq_self] at hx
  exact ⟨_, .void, _, by simp [World.step, hs, e], hx, fun p hp => ⟨rfl, frame_one _ _ hp⟩, rfl⟩

theorem destruct_sim (h : Sim lt w ref ts) {o : Nat}
    (hop : ref.step lt (.destruct o) = some ref') : StepSim lt w ref' ts (.destruct o) := by
  obtain ⟨l, ho, rfl⟩ : ∃ l, ref o = some l ∧ update ref o none = ref' := by
    simpa [Ref.step, Option.bind_eq_some_iff] using hop
  obtain ⟨s, hs, rfl, hinv, -, -, hown⟩ := h.live ho
  obtain ⟨m', e, hl⟩ := RankSet.destruct_spec hinv
  have hx := h.put (x := none) (t := .nil) (hown ▸ hl.outside) (by simp)
  exact ⟨_, .void, _, by simp [World.step, hs, e], hx,
    fun p hp => ⟨frame_one _ _ hp, frame_one _ _ hp⟩, rfl⟩

variable [SortedList.WeakOrder lt]

theorem insert_sim (h : Sim lt w ref ts) {o : Nat} {value : T}
    (hop : ref.step lt (.insert o value) = some ref') :
    StepSim lt w ref' ts (.insert o value) := by
  obtain ⟨l, ho, rfl⟩ : ∃ l, ref o = some l ∧
      update ref o (some (SortedList.insert lt value l)) = ref' := by
    simpa [Ref.step, Option.bind_eq_some_iff] using hop
  obtain ⟨s, hs, rfl, hinv, hsort, rfl, hown⟩ := h.live ho
  obtain ⟨m', t', iter, e, hinv', hval, hsort', hiter, hfresh, hout, hcase⟩ :=
    hinv.insert_spec hsort value
  have hx := h.assign (hown ▸ hout) hinv' rfl hsort' fun a ha => by
    rw [hown]
    rcases List.mem_cons.mp ha with rfl | ha
    · exact .inl (by simp)
    · exact (hfresh a ha).imp_left (List.mem_cons_of_mem _)
  rw [← hs, update_eq_self, hval] at hx
  refine ⟨_, _, _, by simp [World.step, hs, e], hx, fun p hp => ⟨rfl, frame_one _ _ hp⟩,
    s, iter, hs, rfl, ?_, ?_⟩
  · rwa [update_self]
  · rwa [update_self]

theorem eraseValue_sim (h : Sim lt w ref ts) {o : Nat} {value : T}
    (hop : ref.step lt (.eraseValue o value) = some ref') :
    StepSim lt w ref' ts (.eraseValue o value) := by
  obtain ⟨l, ho, rfl⟩ : ∃ l, ref o = some l ∧
      update ref o (some (SortedList.erase lt value l)) = ref' := by
    simpa [Ref.step, Option.bind_eq_some_iff] using hop
  obtain ⟨s, hs, rfl, hinv, hsort, rfl, hown⟩ := h.live ho
  obtain ⟨m', t', e, hinv', hval, hsub, hl⟩ := hinv.eraseValue_spec hsort value
  have hx := h.assign (hown ▸ hl.outside) hinv' rfl (hsort.sublist (hsub.map _)) fun a ha => by
    rw [hown]
    rcases List.mem_cons.mp ha with rfl | ha
    · exact .inl (by simp)
    · exact .inl (List.mem_cons_of_mem _ (SetInv.addrs_subset_of_sublist hsub a ha))
  rw [← hs, update_eq_self, hval] at hx
  exact ⟨_, _, _, by simp [World.step, hs, e], hx, fun p hp => ⟨rfl, frame_one _ _ hp⟩, rfl⟩

omit [SortedList.WeakOrder lt] in
theorem eraseAt_sim (h : Sim lt w ref ts) {o k : Nat}
    (hop : ref.step lt (.eraseAt o k) = some ref') : StepSim lt w ref' ts (.eraseAt o k) := by
  obtain ⟨l, ho, rfl⟩ : ∃ l, ref o = some l ∧ update ref o (some (l.eraseIdx k)) = ref' := by
    simpa [Ref.step, Option.bind_eq_some_iff] using hop
  obtain ⟨s, hs, rfl, hinv, hsort, rfl, hown⟩ := h.live ho
  obtain ⟨m', t', e, hinv', hlist, hl⟩ := hinv.eraseAt_spec k
  have hsub : List.Sublist t'.toList (ts o).toList := hlist ▸ List.eraseIdx_sublist ..
  have hval : values t' = (values (ts o)).eraseIdx k := by
    rw [values, hlist, values, List.eraseIdx_map]
  have hx := h.assign (hown ▸ hl.outside) hinv' rfl (hsort.sublist (hsub.map _)) fun a ha => by
    rw [hown]
    rcases List.mem_cons.mp ha with rfl | ha
    · exact .inl (by simp)
    · exact .inl (List.mem_cons_of_mem _ (SetInv.addrs_subset_of_sublist hsub a ha))
  rw [← hs, update_eq_self, hval] at hx
  refine ⟨_, _, _, ?_, hx, fun p hp => ⟨rfl, frame_one _ _ hp⟩, s, hs, rfl⟩
  simp [World.step, hs, hinv.begin_eq, hinv.next_begin_eq, e]

end Step

end Brickred
