import Mathlib.Order.Defs.Unbundled
import Mathlib.Tactic.Common

/-!
# Sorted duplicate-free lists under a comparator

A finite ordered set as the list of its elements, for a comparator that is a
strict weak order: equivalent elements are ones neither of which is below the
other, and a sorted list holds at most one of each class.

The operations are the specification of an ordered set. `Cut lt v L R` says
that `L ++ R` is sorted and `v` belongs between `L` and `R`; every operation is
computed on a cut.
-/

namespace SortedList

universe u

variable {α : Type u} (lt : α → α → Bool)

/-- The comparator is a strict weak order. -/
abbrev WeakOrder : Prop := IsStrictWeakOrder α fun a b => lt a b = true

def Sorted (l : List α) : Prop := l.Pairwise fun a b => lt a b = true

/-- Neither element is below the other. -/
def equiv (a b : α) : Bool := !lt a b && !lt b a

/-- Insert unless an equivalent element is there. -/
def insert (v : α) : List α → List α
  | [] => [v]
  | x :: l => if lt v x then v :: x :: l else if lt x v then x :: insert v l else x :: l

/-- Whether an equivalent element is there. -/
def contains (v : α) (l : List α) : Bool := l.any (equiv lt v)

def erase (v : α) (l : List α) : List α := l.filter fun x => !equiv lt v x

/-- The position of the equivalent element, or the length. -/
def find (v : α) (l : List α) : Nat := l.findIdx (equiv lt v)

/-- The position of the first element not below `v`. -/
def lowerBound (v : α) (l : List α) : Nat := l.findIdx fun x => !lt x v

/-- The position of the first element above `v`. -/
def upperBound (v : α) (l : List α) : Nat := l.findIdx fun x => lt v x

/-- The number of elements below `v`. -/
def rank (v : α) (l : List α) : Nat := l.countP fun x => lt x v

/-- `v` belongs between `L` and `R` in the sorted list `L ++ R`. -/
structure Cut (v : α) (L R : List α) : Prop where
  sorted : Sorted lt (L ++ R)
  below : ∀ a ∈ L, lt a v = true
  notBelow : ∀ b ∈ R, lt b v = false

/-! ## Strict weak orders -/

section Order

variable {lt} [WeakOrder lt] {a b c : α}

theorem lt_trans (hab : lt a b = true) (hbc : lt b c = true) : lt a c = true :=
  IsTrans.trans (r := fun a b => lt a b = true) a b c hab hbc

variable (lt) in
theorem lt_irrefl (a : α) : lt a a = false :=
  Bool.eq_false_iff.mpr (Std.Irrefl.irrefl (r := fun a b => lt a b = true) a)

theorem lt_asymm (hab : lt a b = true) : lt b a = false := by
  refine Bool.eq_false_iff.mpr fun hba => ?_
  exact Bool.eq_false_iff.mp (lt_irrefl lt a) (lt_trans hab hba)

/-- Nothing lies between two equivalent elements: `a < b` puts any `c` above
`a` or below `b`. -/
theorem lt_or_lt (hab : lt a b = true) (c : α) : lt a c = true ∨ lt c b = true := by
  by_contra hc
  rw [not_or] at hc
  cases hca : lt c a with
  | true => exact hc.2 (lt_trans hca hab)
  | false =>
    cases hbc : lt b c with
    | true => exact hc.1 (lt_trans hab hbc)
    | false =>
      have h := @IsStrictWeakOrder.incomp_trans _ (fun a b => lt a b = true) _ a c b
        ⟨hc.1, by simp [hca]⟩ ⟨hc.2, by simp [hbc]⟩
      exact h.1 hab

theorem lt_of_lt_of_not_lt (hab : lt a b = true) (hcb : lt c b = false) : lt a c = true := by
  rcases lt_or_lt hab c with h | h
  · exact h
  · rw [hcb] at h
    cases h

theorem lt_of_not_lt_of_lt (hba : lt b a = false) (hbc : lt b c = true) : lt a c = true := by
  rcases lt_or_lt hbc a with h | h
  · rw [hba] at h
    cases h
  · exact h

end Order

/-! ## Cuts -/

/-- A predicate that stays true along a list cuts it in two. -/
theorem exists_split (p : α → Bool) : ∀ {l : List α},
    l.Pairwise (fun a b => p a = true → p b = true) →
    ∃ L R, l = L ++ R ∧ (∀ a ∈ L, p a = false) ∧ ∀ b ∈ R, p b = true
  | [], _ => ⟨[], [], rfl, by simp, by simp⟩
  | x :: l, h => by
    obtain ⟨hx, hl⟩ := List.pairwise_cons.mp h
    cases hp : p x with
    | true => exact ⟨[], x :: l, rfl, by simp, by simpa [hp] using fun b hb => hx b hb hp⟩
    | false =>
      obtain ⟨L, R, rfl, hL, hR⟩ := exists_split p hl
      exact ⟨x :: L, R, rfl, by simpa [hp] using hL, hR⟩

/-- An item that is not left of a cut: the cut is left of the item. -/
theorem split_left {l r L R : List α} {x : α} (h : l ++ x :: r = L ++ R) (hx : x ∉ L) :
    ∃ M, l = L ++ M ∧ R = M ++ x :: r := by
  obtain ⟨M, rfl, hM⟩ | ⟨M, rfl, rfl⟩ := List.append_eq_append_iff.mp h
  · cases M with
    | nil => exact ⟨[], by simp, hM.symm⟩
    | cons y M =>
      obtain ⟨rfl, -⟩ := List.cons.inj hM
      exact absurd (by simp) hx
  · exact ⟨M, rfl, rfl⟩

/-- An item that is not right of a cut: the cut is right of the item. -/
theorem split_right {l r L R : List α} {x : α} (h : l ++ x :: r = L ++ R) (hx : x ∉ R) :
    ∃ M, r = M ++ R ∧ L = l ++ x :: M := by
  obtain ⟨M, rfl, hM⟩ | ⟨M, rfl, rfl⟩ := List.append_eq_append_iff.mp h
  · cases M with
    | nil =>
      obtain rfl : x :: r = R := hM
      exact absurd (by simp) hx
    | cons y M =>
      obtain ⟨rfl, rfl⟩ := List.cons.inj hM
      exact ⟨M, rfl, rfl⟩
  · exact absurd (by simp) hx

section Cut

variable {lt} {v x : α} {l L R : List α}

theorem findIdx_append_of (p : α → Bool) (hL : ∀ a ∈ L, p a = false)
    (hR : ∀ b ∈ R.head?, p b = true) : (L ++ R).findIdx p = L.length := by
  have hL' : L.findIdx p = L.length := List.findIdx_eq_length.mpr hL
  rw [List.findIdx_append, hL', if_neg (Nat.lt_irrefl _)]
  cases R with
  | nil => simp
  | cons b R => simp [List.findIdx_cons, hR b rfl]

theorem Cut.lowerBound_eq (h : Cut lt v L R) : lowerBound lt v (L ++ R) = L.length :=
  findIdx_append_of _ (by simpa using h.below)
    fun b hb => by simpa using h.notBelow b (List.mem_of_mem_head? hb)

theorem Cut.rank_eq (h : Cut lt v L R) : rank lt v (L ++ R) = L.length := by
  have hL : L.countP (fun x => lt x v) = L.length := List.countP_eq_length.mpr h.below
  have hR : R.countP (fun x => lt x v) = 0 :=
    List.countP_eq_zero.mpr fun b hb => by simp [h.notBelow b hb]
  rw [rank, List.countP_append, hL, hR, Nat.add_zero]

theorem Cut.of_sublist {L' R' : List α} (h : Cut lt v L R) (hL : List.Sublist L' L)
    (hR : List.Sublist R' R) : Cut lt v L' R' :=
  ⟨List.Pairwise.sublist (hL.append hR) h.sorted, fun a ha => h.below a (hL.subset ha),
    fun b hb => h.notBelow b (hR.subset hb)⟩

/-- Left of the cut nothing is equivalent to `v`. -/
theorem Cut.not_equiv_left (h : Cut lt v L R) : ∀ a ∈ L, equiv lt v a = false := by
  intro a ha
  simp [equiv, h.below a ha]

/-- The first element right of the cut is equivalent to `v` unless it is above. -/
theorem Cut.equiv_head (h : Cut lt v L (x :: R)) (hx : lt v x = false) :
    equiv lt v x = true := by
  simp [equiv, hx, h.notBelow x (by simp)]

theorem Cut.contains_of_present (h : Cut lt v L (x :: R)) (hx : lt v x = false) :
    contains lt v (L ++ x :: R) = true := by
  simp [contains, h.equiv_head hx]

theorem Cut.find_of_present (h : Cut lt v L (x :: R)) (hx : lt v x = false) :
    find lt v (L ++ x :: R) = L.length :=
  findIdx_append_of _ h.not_equiv_left (by simp [h.equiv_head hx])

variable [WeakOrder lt]

theorem exists_cut (h : Sorted lt l) (v : α) : ∃ L R, l = L ++ R ∧ Cut lt v L R := by
  have hp : l.Pairwise fun a b => (!lt a v) = true → (!lt b v) = true := by
    refine List.Pairwise.imp (fun {a b} hab ha => ?_) h
    cases hb : lt b v with
    | false => rfl
    | true => simp [lt_trans hab hb] at ha
  obtain ⟨L, R, rfl, hL, hR⟩ := exists_split _ hp
  exact ⟨L, R, rfl, h, by simpa using hL, by simpa using hR⟩

/-- In a sorted list every element is below its successors and above its
predecessors. -/
theorem Sorted.cut_self (h : Sorted lt (L ++ x :: R)) : Cut lt x L (x :: R) := by
  obtain ⟨-, hR, hL⟩ := List.pairwise_append.mp h
  refine ⟨h, fun a ha => hL a ha x (by simp), fun b hb => ?_⟩
  rcases List.mem_cons.mp hb with rfl | hb
  · exact lt_irrefl lt b
  · exact lt_asymm ((List.pairwise_cons.mp hR).1 b hb)

theorem rank_eq_lowerBound (h : Sorted lt l) (v : α) : rank lt v l = lowerBound lt v l := by
  obtain ⟨L, R, rfl, hcut⟩ := exists_cut h v
  rw [hcut.rank_eq, hcut.lowerBound_eq]

/-- Inserting walks past everything below `v`. -/
theorem insert_append : ∀ {L : List α}, (∀ a ∈ L, lt a v = true) → ∀ R : List α,
    insert lt v (L ++ R) = L ++ insert lt v R
  | [], _, _ => rfl
  | a :: L, h, R => by
    have ha := h a (by simp)
    rw [List.cons_append, insert, lt_asymm ha, ha, insert_append fun b hb => h b (by simp [hb])]
    rfl

/-- Right of the cut only the first element can be equivalent to `v`. -/
theorem Cut.above_tail (h : Cut lt v L (x :: R)) : ∀ b ∈ R, lt v b = true := by
  intro b hb
  have hs : Sorted lt (x :: R) := (List.pairwise_append.mp h.sorted).2.1
  exact lt_of_not_lt_of_lt (h.notBelow x (by simp)) ((List.pairwise_cons.mp hs).1 b hb)

section Present

variable (h : Cut lt v L (x :: R)) (hx : lt v x = false)
include h hx

theorem Cut.insert_of_present : insert lt v (L ++ x :: R) = L ++ x :: R := by
  rw [insert_append h.below, insert, hx, h.notBelow x (by simp)]
  rfl

theorem Cut.erase_of_present : erase lt v (L ++ x :: R) = L ++ R := by
  have hL := h.not_equiv_left
  have hR : ∀ b ∈ R, equiv lt v b = false := fun b hb => by simp [equiv, h.above_tail b hb]
  rw [erase, List.filter_append, List.filter_cons_of_neg (by simp [h.equiv_head hx]),
    List.filter_eq_self.mpr (by simpa using hL), List.filter_eq_self.mpr (by simpa using hR)]

theorem Cut.upperBound_of_present : upperBound lt v (L ++ x :: R) = L.length + 1 := by
  have e : L ++ x :: R = (L ++ [x]) ++ R := by simp
  rw [e, upperBound, findIdx_append_of, List.length_append]
  · rfl
  · intro a ha
    rcases List.mem_append.mp ha with ha | ha
    · exact lt_asymm (h.below a ha)
    · rw [List.mem_singleton.mp ha]
      exact hx
  · intro b hb
    exact h.above_tail b (List.mem_of_mem_head? hb)

end Present

section Absent

variable (h : Cut lt v L R) (hR : ∀ b ∈ R.head?, lt v b = true)
include h hR

theorem Cut.above_of_absent : ∀ b ∈ R, lt v b = true := by
  cases R with
  | nil => simp
  | cons x R =>
    intro b hb
    have hs : Sorted lt (x :: R) := (List.pairwise_append.mp h.sorted).2.1
    rcases List.mem_cons.mp hb with rfl | hb
    · exact hR _ rfl
    · exact lt_trans (hR x rfl) ((List.pairwise_cons.mp hs).1 b hb)

theorem Cut.not_equiv : ∀ b ∈ L ++ R, equiv lt v b = false := by
  intro b hb
  rcases List.mem_append.mp hb with hb | hb
  · exact h.not_equiv_left b hb
  · simp [equiv, h.above_of_absent hR b hb]

theorem Cut.contains_of_absent : contains lt v (L ++ R) = false :=
  List.any_eq_false.mpr fun b hb => by simp [h.not_equiv hR b hb]

theorem Cut.find_of_absent : find lt v (L ++ R) = (L ++ R).length :=
  List.findIdx_eq_length.mpr (h.not_equiv hR)

theorem Cut.erase_of_absent : erase lt v (L ++ R) = L ++ R :=
  List.filter_eq_self.mpr fun b hb => by simp [h.not_equiv hR b hb]

theorem Cut.upperBound_of_absent : upperBound lt v (L ++ R) = L.length :=
  findIdx_append_of _ (fun a ha => lt_asymm (h.below a ha)) hR

theorem Cut.sorted_insert : Sorted lt (L ++ v :: R) := by
  obtain ⟨hL, hR', hLR⟩ := List.pairwise_append.mp h.sorted
  refine List.pairwise_append.mpr ⟨hL, List.pairwise_cons.mpr ⟨h.above_of_absent hR, hR'⟩, ?_⟩
  intro a ha b hb
  rcases List.mem_cons.mp hb with rfl | hb
  · exact h.below a ha
  · exact hLR a ha b hb

/-- After the insertion the cut stands before the new element. -/
theorem Cut.cut_insert : Cut lt v L (v :: R) := by
  refine ⟨h.sorted_insert hR, h.below, fun b hb => ?_⟩
  rcases List.mem_cons.mp hb with rfl | hb
  · exact lt_irrefl lt b
  · exact h.notBelow b hb

theorem Cut.insert_of_absent : insert lt v (L ++ R) = L ++ v :: R := by
  rw [insert_append h.below]
  cases R with
  | nil => rfl
  | cons x R => rw [insert, if_pos (hR x rfl)]

end Absent

end Cut

end SortedList
