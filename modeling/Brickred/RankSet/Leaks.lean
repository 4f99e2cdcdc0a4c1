import Brickred.RankSet.Refinement
import Brickred.RankSet.Iteration

/-!
# Who owns a node

Every node in memory belongs to one set that is alive: `new` is called for the nodes that
are linked in and for no others, and what is taken out of a set is deleted. The header
deletes by hand, so that each path of each function has to.

What a function has written is known from its specification (`ObjectHeap.Outside`); here
is what it has made and what it has deleted (`ObjectHeap.Leaves`).
-/

namespace Brickred

open RedBlack HeapTree Function ObjectHeap

variable {T : Type} {m m' : Memory T} {s : RankSet T} {v : T} {t : RBTree (Item T)}

/-! ## Functions that make nothing -/

section Next

variable {a x q : Addr} {p : Ptr} {d : Dir} {b : Bool}

namespace RankSet

end RankSet

end Next

/-! ## One node for each insertion -/

namespace RankSet

end RankSet

/-! ## Deleting all nodes -/

namespace RankSet

end RankSet

/-! ## Building -/

namespace RankSet

variable [Inhabited T]

end RankSet

/-! ## Programs -/

namespace World

/-- The nodes of object `o`: its header, and those that its walk visits. -/
def owned (w : World T) (o : Nat) : List Addr :=
  (w.sets o).elim [] fun s => s.header :: ((s.contents w.mem).getD []).map Prod.fst

/-- Every node belongs to an object that is alive. -/
def Clean (w : World T) : Prop := ∀ a, w.mem.cell a ≠ none → ∃ o, a ∈ w.owned o

variable {lt : T → T → Bool} {w w' : World T} {ref ref' : Ref T} {ts ts' : Nat → RBTree (Item T)}
  {o other p : Nat} {r : Result}

theorem owned_none (hs : w.sets o = none) : w.owned o = [] := by
  rw [owned, hs]
  rfl

theorem owned_some (hs : w.sets o = some s) (h : SetInv w.mem s v t) :
    w.owned o = s.header :: addrs t := by
  rw [owned, hs]
  show s.header :: ((s.contents w.mem).getD []).map Prod.fst = _
  rw [h.contents_eq]
  rfl

/-- Objects that a call does not change own what they owned. -/
theorem owned_congr [Inhabited T] (h : Sim lt w ref ts) (h' : Sim lt w' ref' ts')
    (hp : w'.sets p = w.sets p ∧ ts' p = ts p) : w'.owned p = w.owned p := by
  cases hs : w.sets p with
  | none => rw [owned_none hs, owned_none (hp.1.trans hs)]
  | some s => rw [owned_some hs (h.inv p s hs), owned_some (hp.1.trans hs) (h'.inv p s (hp.1.trans hs)), hp.2]

theorem Clean.rebuild {S S' : List Addr} (hc : w.Clean) (hl : Leaves S S' w.mem w'.mem)
    (hkept : ∀ p, ∀ a ∈ w.owned p, a ∉ S → ∃ q, a ∈ w'.owned q)
    (hnew : ∀ a ∈ S', ∃ q, a ∈ w'.owned q) : w'.Clean := by
  intro a ha
  rcases hl a ha with hmem | ⟨hS, halive⟩
  · exact hnew a hmem
  · obtain ⟨p, hp⟩ := hc a halive
    exact hkept p a hp hS

variable [Inhabited T]

/-- A call on one object. -/
theorem Clean.one (h : Sim lt w ref ts) (h' : Sim lt w' ref' ts') (hc : w.Clean)
    (hframe : ∀ p, p ∉ [o] → w'.sets p = w.sets p ∧ ts' p = ts p)
    (hl : Leaves (w.owned o) (w'.owned o) w.mem w'.mem) : w'.Clean := by
  refine hc.rebuild hl (fun p a ha hS => ⟨p, ?_⟩) fun a ha => ⟨o, ha⟩
  have hne : p ≠ o := by
    rintro rfl
    exact hS ha
  rwa [owned_congr h h' (hframe p (by simpa using hne))]

/-- A call that gives the nodes of `other` to `o`, deletes `S` and makes `S'`. -/
theorem Clean.move {S S' : List Addr} (h : Sim lt w ref ts) (h' : Sim lt w' ref' ts') (hc : w.Clean)
    (hframe : ∀ p, p ∉ [o, other] → w'.sets p = w.sets p ∧ ts' p = ts p)
    (hl : Leaves S S' w.mem w'.mem) (ho : ∀ a ∈ w.owned o, a ∉ S → ∃ q, a ∈ w'.owned q)
    (hother : w'.owned o = w.owned other) (hnew : ∀ a ∈ S', ∃ q, a ∈ w'.owned q) : w'.Clean := by
  refine hc.rebuild hl (fun p a ha hS => ?_) hnew
  by_cases hpo : p = o
  · subst hpo
    exact ho a ha hS
  · by_cases hpother : p = other
    · subst hpother
      exact ⟨o, hother ▸ ha⟩
    · exact ⟨p, by rwa [owned_congr h h' (hframe p (by simp [hpo, hpother]))]⟩

/-- A call that works on the tree of one object. -/
theorem Clean.edit (h : Sim lt w ref ts) (hc : w.Clean) {m' : Memory T}
    (h' : Sim lt ⟨m', w.sets⟩ ref' ts') (hframe : ∀ p, p ∉ [o] → w.sets p = w.sets p ∧ ts' p = ts p)
    (hs : w.sets o = some s)
    (hl : ∃ t', SetInv m' s default t' ∧
      Leaves (s.header :: addrs (ts o)) (s.header :: addrs t') w.mem m') :
    World.Clean ⟨m', w.sets⟩ := by
  obtain ⟨t', hinv, hl⟩ := hl
  refine hc.one h h' hframe ?_
  rw [owned_some hs (h.inv o s hs), owned_some (w := ⟨m', w.sets⟩) hs hinv]
  exact hl

variable [SortedList.WeakOrder lt]

end World

end Brickred
