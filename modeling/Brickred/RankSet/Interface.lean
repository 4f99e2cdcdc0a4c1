import Brickred.RankSet.Copy
import Brickred.RankSet.EraseNode
import Brickred.RankSet.Insert

/-!
# The public interface of one `RankSet`

Each member function against the sorted list of values it stands for
(`SortedList`), with the memory it may touch.
-/

namespace Brickred

open RedBlack HeapTree

variable {T : Type} {m : Memory T} {t : RBTree (Item T)} {s : RankSet T} {v : T}

/-- `std::next(iter, k)`, stopping at `end()`. -/
def RankSet.next (s : RankSet T) (m : Memory T) : Nat → Addr → Option Addr
  | 0, iter => some iter
  | k + 1, iter => do
    if iter = s.end' then some iter
    else s.next m k (← m.increment iter)

namespace HeapTree.SetInv

/-- Stepping from one position to a later one. -/
theorem next_eq (h : SetInv m s v t) : ∀ {k : Nat} {L R : List (Item T)}, t.toList = L ++ R →
    s.next m k (firstOr s.header R) = some (firstOr s.header (R.drop k))
  | 0, _, _, _ => rfl
  | _ + 1, _, [], _ => by simp [RankSet.next, RankSet.end']
  | k + 1, L, x :: R, hs => by
    have hne := h.rep.ne_header (mem_addrs_of_split hs)
    have hnext := h.next_eq (k := k) (L := L ++ [x]) (R := R) (by simpa using hs)
    simp [RankSet.next, RankSet.end', hne, h.increment_eq hs, hnext]

/-- The `k`-th iterator counted from `begin()`. -/
theorem next_begin_eq (h : SetInv m s v t) (k : Nat) :
    s.next m k (firstOr s.header t.toList) = some (iterAt s.header t.toList k) :=
  h.next_eq (L := []) rfl

/-- `erase(iterator)` at the end does nothing. -/
theorem eraseIter_end (m : Memory T) (s : RankSet T) :
    s.eraseIter m s.header = some (m, s.header) := by
  simp [RankSet.eraseIter, RankSet.end']

/-- `erase(iterator)` takes the element out and returns the iterator behind it. -/
theorem eraseIter_spec (h : SetInv m s v t) {x : Item T} {L R : List (Item T)}
    (hs : t.toList = L ++ x :: R) :
    ∃ m' t', s.eraseIter m x.1 = some (m', firstOr s.header R) ∧ SetInv m' s v t' ∧
      t'.toList = L ++ R ∧ ObjectHeap.Local (s.header :: addrs t) m m' := by
  obtain ⟨m', t', e, h', hlist, hl⟩ := s.eraseNode_spec h hs
  have hne := h.rep.ne_header (mem_addrs_of_split hs)
  refine ⟨m', t', ?_, h', hlist, hl⟩
  simp [RankSet.eraseIter, RankSet.end', hne, h.increment_eq hs, e]

/-- `erase(iterator)` at any position. -/
theorem eraseAt_spec (h : SetInv m s v t) (k : Nat) :
    ∃ m' t', s.eraseIter m (iterAt s.header t.toList k) =
        some (m', iterAt s.header t'.toList k) ∧
      SetInv m' s v t' ∧ t'.toList = t.toList.eraseIdx k ∧
      ObjectHeap.Local (s.header :: addrs t) m m' := by
  by_cases hk : k < t.toList.length
  · obtain ⟨L, x, R, hs, rfl⟩ : ∃ L x R, t.toList = L ++ x :: R ∧ L.length = k :=
      ⟨t.toList.take k, t.toList[k], t.toList.drop (k + 1),
        by rw [List.getElem_cons_drop, List.take_append_drop],
        List.length_take_of_le (Nat.le_of_lt hk)⟩
    obtain ⟨m', t', e, h', hlist, hl⟩ := h.eraseIter_spec hs
    refine ⟨m', t', ?_, h', ?_, hl⟩
    · rw [hs, hlist, iterAt_length, iterAt_length, firstOr_cons]
      exact e
    · rw [hlist, hs, List.eraseIdx_append_of_length_le (Nat.le_refl _), Nat.sub_self]
      rfl
  · have hend : iterAt s.header t.toList k = s.header := by
      rw [iterAt, List.drop_eq_nil_of_le (Nat.le_of_not_lt hk), firstOr_nil]
    refine ⟨m, t, ?_, h, (List.eraseIdx_of_length_le (Nat.le_of_not_lt hk)).symm, .refl _ _⟩
    rw [hend, eraseIter_end]

/-- The addresses of a set after an operation that added no nodes. -/
theorem addrs_subset_of_sublist {t t' : RBTree (Item T)} (h : List.Sublist t'.toList t.toList) :
    ∀ a ∈ addrs t', a ∈ addrs t :=
  fun _ ha => (h.map Prod.fst).subset ha

section Ordered

variable [SortedList.WeakOrder s.compareFunc]

/-- `erase(value)` takes the equivalent element out, if there is one. -/
theorem eraseValue_spec (h : SetInv m s v t) (hsort : SortedList.Sorted s.compareFunc (values t))
    (value : T) :
    ∃ m' t', s.eraseValue m value =
        some (m', if SortedList.contains s.compareFunc value (values t) then 1 else 0) ∧
      SetInv m' s v t' ∧ values t' = SortedList.erase s.compareFunc value (values t) ∧
      List.Sublist t'.toList t.toList ∧ ObjectHeap.Local (s.header :: addrs t) m m' := by
  have hfind := h.find_eq hsort value
  obtain ⟨L, R, hs, hv, hcut⟩ := exists_cut hsort value
  rw [hv, hs] at hfind
  have habsent : (∀ b ∈ (R.map Prod.snd).head?, s.compareFunc value b = true) →
      ∃ m' t', s.eraseValue m value =
          some (m', if SortedList.contains s.compareFunc value (values t) then 1 else 0) ∧
        SetInv m' s v t' ∧ values t' = SortedList.erase s.compareFunc value (values t) ∧
        List.Sublist t'.toList t.toList ∧ ObjectHeap.Local (s.header :: addrs t) m m' := by
    intro habs
    rw [hcut.find_of_absent habs, ← List.map_append, List.length_map, iterAt_end] at hfind
    refine ⟨m, t, ?_, h, ?_, List.Sublist.refl _, .refl _ _⟩
    · rw [hv, hcut.contains_of_absent habs]
      simp [RankSet.eraseValue, hfind, RankSet.end']
    · rw [hv, hcut.erase_of_absent habs]
  cases R with
  | nil => exact habsent (by simp)
  | cons x R =>
    cases hx : s.compareFunc value x.2 with
    | true => exact habsent (by simpa using hx)
    | false =>
      obtain ⟨m', t', e, h', hlist, hl⟩ := h.eraseIter_spec hs
      have hne := h.rep.ne_header (mem_addrs_of_split hs)
      rw [List.map_cons, hcut.find_of_present hx, List.length_map, iterAt_length,
        firstOr_cons] at hfind
      refine ⟨m', t', ?_, h', ?_, ?_, hl⟩
      · rw [hv, List.map_cons, hcut.contains_of_present hx]
        simp [RankSet.eraseValue, hfind, RankSet.end', hne, e]
      · rw [hv, List.map_cons, hcut.erase_of_present hx, values, hlist, List.map_append]
      · rw [hlist, hs]
        exact (List.sublist_cons_self x R).append_left L

/-- `insert`: the iterator returned is the one `find` would return afterwards. -/
theorem insert_spec (h : SetInv m s v t) (hsort : SortedList.Sorted s.compareFunc (values t))
    (value : T) :
    ∃ m' t' iter, s.insert m value =
        some (m', iter, !SortedList.contains s.compareFunc value (values t)) ∧
      SetInv m' s v t' ∧ values t' = SortedList.insert s.compareFunc value (values t) ∧
      SortedList.Sorted s.compareFunc (values t') ∧
      iter = iterAt s.header t'.toList (SortedList.find s.compareFunc value (values t')) ∧
      (∀ a ∈ addrs t', a ∈ addrs t ∨ m.next ≤ a) ∧
      ObjectHeap.Outside (s.header :: addrs t) m m' ∧
      (if SortedList.contains s.compareFunc value (values t) then t'.toList = t.toList
        else ∃ L R, t.toList = L ++ R ∧ t'.toList = L ++ (iter, value) :: R) := by
  obtain ⟨L, R, hs, hv, hcut⟩ := exists_cut hsort value
  by_cases hpres : ∃ x R', R = x :: R' ∧ s.compareFunc value x.2 = false
  · obtain ⟨x, R, rfl, hx⟩ := hpres
    have hins := s.insertNode_present h hs hcut hx
    rw [List.map_cons] at hv hcut
    refine ⟨m, t, x.1, ?_, h, ?_, hsort, ?_, fun a ha => .inl ha,
      (ObjectHeap.Local.refl _ _).outside, ?_⟩
    · rw [hv, hcut.contains_of_present hx]
      exact hins
    · rw [hv, hcut.insert_of_present hx]
    · rw [hv, hcut.find_of_present hx, List.length_map, hs, iterAt_length, firstOr_cons]
    · rw [hv, hcut.contains_of_present hx, if_pos rfl]
  · have habs : ∀ b ∈ (R.map Prod.snd).head?, s.compareFunc value b = true := by
      cases R with
      | nil => simp
      | cons x R =>
        intro b hb
        obtain rfl : x.2 = b := by simpa using hb
        cases hx : s.compareFunc value x.2 with
        | true => rfl
        | false => exact absurd ⟨x, R, rfl, hx⟩ hpres
    obtain ⟨m', t', e, h', hlist, hout⟩ := s.insertNode_absent h hs hcut (fun b hb => habs b.2 (by
      cases R with
      | nil => cases hb
      | cons x R =>
        obtain rfl : x = b := by simpa using hb
        simp))
    have hv' : values t' = L.map Prod.snd ++ value :: R.map Prod.snd := by
      simp [values, hlist]
    refine ⟨m', t', m.next, ?_, h', ?_, ?_, ?_, ?_, hout, ?_⟩
    · rw [hv, hcut.contains_of_absent habs]
      exact e
    · rw [hv', hv, hcut.insert_of_absent habs]
    · rw [hv']
      exact hcut.sorted_insert habs
    · have hcut' := hcut.cut_insert habs
      rw [hv', hcut'.find_of_present (SortedList.lt_irrefl _ _), List.length_map, hlist,
        iterAt_length, firstOr_cons]
    · intro a ha
      rw [addrs, hlist] at ha
      rw [addrs, hs]
      simp only [List.map_append, List.map_cons, List.mem_append, List.mem_cons] at ha ⊢
      rcases ha with ha | rfl | ha
      · exact .inl (.inl ha)
      · exact .inr (Nat.le_refl _)
      · exact .inl (.inr ha)
    · rw [hv, hcut.contains_of_absent habs]
      exact ⟨L, R, hs, hlist⟩

end Ordered

end HeapTree.SetInv

end Brickred
