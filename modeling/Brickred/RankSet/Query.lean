import Brickred.Lib.SortedList
import Brickred.RankSet.Rep

/-!
# Walking a `RankSet`: iteration, search, `select` and `rank`

`SetInv m s v t` is the representation invariant of one set: the heap tree is a
red-black tree, and the header caches its root, extremes and size. Under it
every descent and climb is computed on the in-order sequence `t.toList`, an
iterator being the address at the front of what is left of that sequence
(`firstOr`).
-/

namespace Brickred

open RedBlack RedBlack.Ctx HeapTree

variable {T : Type} {m : Memory T} {hn : RBTreeNode T} {header : Addr} {c : Ctx (Item T)}
  {t : RBTree (Item T)} {p : Ptr}

namespace HeapTree

/-- The iterator that stands before a remaining sequence; the header at its end. -/
def firstOr (header : Addr) : List (Item T) → Addr
  | [] => header
  | x :: _ => x.1

@[simp] theorem firstOr_nil : firstOr header ([] : List (Item T)) = header := rfl

@[simp] theorem firstOr_cons (x : Item T) (l : List (Item T)) : firstOr header (x :: l) = x.1 := rfl

theorem firstOr_append {l l' : List (Item T)} :
    firstOr header (l ++ l') = firstOr (firstOr header l') l := by
  cases l <;> rfl

theorem firstOr_congr {a b : Addr} {l : List (Item T)} (h : l ≠ []) : firstOr a l = firstOr b l := by
  cases l with
  | nil => exact absurd rfl h
  | cons => rfl

/-- The header node of a set that holds `t`. -/
def headerOf (header : Addr) (v : T) (t : RBTree (Item T)) : RBTreeNode T where
  isRed := true
  parent := root t
  left := some (firstOr header (t.seq .left))
  right := some (firstOr header (t.seq .right))
  nodeCount := t.size
  value := v

theorem child_headerOf (d : Dir) (v : T) (p : Ptr) :
    ({ headerOf header v t with parent := p } : RBTreeNode T).child d =
      some (firstOr header (t.seq d)) := by
  cases d <;> rfl

/-- The representation invariant of a `RankSet` that holds the tree `t`. -/
structure SetInv (m : Memory T) (s : RankSet T) (v : T) (t : RBTree (Item T)) : Prop where
  rep : SetRep m s.header (headerOf s.header v t) t
  isRB : IsRB t

end HeapTree

/-! ## Descending to an end -/

/-- Descending on side `d` ends at the first node seen from that side. -/
theorem Memory.descend_spec (d : Dir) (header : Addr) (h : TreeRep m p t) :
    ∀ {a : Addr} {fuel : Nat}, root t = some a → t.size ≤ fuel →
      m.descend d fuel a = some (firstOr header (t.seq d)) := by
  induction t using RBTree.branchInduction d generalizing p with
  | nil =>
    intro a fuel ha
    cases ha
  | branch red x near far ih _ =>
    intro a fuel ha hfuel
    obtain ⟨hx, hnear, -⟩ := treeRep_branch.mp h
    rw [root_branch] at ha
    obtain rfl := Option.some.inj ha
    rw [RBTree.size_branch] at hfuel
    obtain ⟨fuel, rfl⟩ := Nat.exists_eq_succ_of_ne_zero (show fuel ≠ 0 by omega)
    cases hn : root near with
    | none =>
      cases near with
      | nil => simp [Memory.descend, hx]
      | node => cases hn
    | some b =>
      have hb := ih hnear hn (by omega : near.size ≤ fuel)
      have hne : near.seq d ≠ [] := RBTree.seq_ne_nil (by rintro rfl; cases hn)
      have hfirst : firstOr header (near.seq d ++ x :: far.seq d) = firstOr header (near.seq d) := by
        rw [firstOr_append]
        exact firstOr_congr hne
      simp [Memory.descend, hx, hn, hb, hfirst]

/-! ## Iteration -/

/-- No child pointer of the focus' root leads back up. -/
theorem HeapTree.SetRep.child_ne_top {node : Addr} (h : SetRep m header hn (plug c t))
    (hx : root t = some node) :
    ∃ n, m.cell node = some n ∧ ∀ d, n.child d ≠ some (top header c) := by
  obtain ⟨hc, ht, hnd⟩ := setRep_plug.mp h
  have htop := top_not_mem hnd
  cases t with
  | nil => cases hx
  | node red l x r =>
    obtain rfl := Option.some.inj hx
    refine ⟨_, ht.1, fun d hd => htop ?_⟩
    cases d with
    | left => simp [root_mem (show root l = _ from hd)]
    | right => simp [root_mem (show root r = _ from hd)]

/-- Climbing out of the subtrees on side `d` reaches what comes next beyond
them, up to the correction for the root that `advance` makes. -/
theorem Memory.climb_spec (d : Dir) (hd : ∀ p, ({ hn with parent := p } : RBTreeNode T).child d =
      some (firstOr header ((plug c t).seq d))) {node : Addr} {fuel : Nat}
    (h : SetRep m header hn (plug c t)) (hx : root t = some node) (hfuel : c.length + 1 < fuel) :
    ∃ a b n, m.climb d fuel node (top header c) = some (a, b) ∧ m.cell a = some n ∧
      (if n.child d ≠ some b then b else a) = firstOr header (beyond d c) := by
  obtain ⟨n, hn', hne⟩ := h.child_ne_top hx
  induction c generalizing t node fuel n with
  | nil =>
    obtain ⟨fuel, rfl⟩ : ∃ k, fuel = k + 2 := ⟨fuel - 2, by simp at hfuel; omega⟩
    have hh := h.headerCell
    rw [show root (plug [] t) = some node from hx] at hh
    by_cases hext : firstOr header (t.seq d) = node
    · -- the root is the last node on its side: the climb stops on the header
      refine ⟨header, node, _, ?_, hh, ?_⟩
      · have hstop : n.child d ≠ some header := hne d
        simp [Memory.climb, hh, hn', hd, show plug [] t = t from rfl, hext, hstop]
      · simp [hd, show plug [] t = t from rfl, hext, beyond]
    · refine ⟨node, header, n, ?_, hn', ?_⟩
      · have hstop : ¬ some (firstOr header (t.seq d)) = some node := fun he =>
          hext (Option.some.inj he)
        simp only [Memory.climb, top_nil, hh, Option.bind_eq_bind, Option.bind_some, hd,
          show plug [] t = t from rfl, if_neg hstop]
      · have hstop : n.child d ≠ some header := hne d
        simp [hstop, beyond]
  | cons f c ih =>
    obtain ⟨fuel, rfl⟩ := Nat.exists_eq_succ_of_ne_zero (Nat.ne_of_gt (Nat.zero_lt_of_lt hfuel))
    have hf := h.cellFrame
    have hside := h.child_eq_iff (p := some (top header c)) (n := t.size + f.sib.size + 1) hx d
    by_cases hfd : d = f.dir
    · have h' : SetRep m header hn (plug c (f.fill t)) := h
      obtain ⟨n', hn₁, hne₁⟩ := h'.child_ne_top (root_branch ..)
      obtain ⟨a, b, k, hrun, hcell, hend⟩ := ih hd h' (root_branch ..)
        (by simpa using hfuel) n' hn₁ hne₁
      refine ⟨a, b, k, ?_, hcell, ?_⟩
      · rw [top_cons, Memory.climb]
        simp only [hf, Option.bind_eq_bind, Option.bind_some, hside.mpr hfd, if_true, parent_mkNode]
        exact hrun
      · rw [hend, beyond, if_pos hfd.symm]
    · refine ⟨node, f.item.1, n, ?_, hn', ?_⟩
      · rw [top_cons, Memory.climb]
        simp only [hf, Option.bind_eq_bind, Option.bind_some, if_neg (mt hside.mp hfd)]
      · have hstop : n.child d ≠ some f.item.1 := hne d
        rw [if_pos hstop, beyond, if_neg (Ne.symm hfd), firstOr_cons]

/-- `increment` (`d = right`) and `decrement` (`d = left`) step to the neighbour
in the in-order sequence. -/
theorem Memory.advance_spec {d : Dir} {red : Bool} {x : Item T} {near far : RBTree (Item T)}
    {s : RankSet T} {v : T} (h : SetInv m s v (plug c (.branch d red x near far))) :
    m.advance d x.1 = some (firstOr s.header (near.seq d.opp ++ beyond d c)) := by
  have hx := h.rep.cell
  have hnear : TreeRep m (some x.1) near :=
    (treeRep_branch.mp (setRep_plug.mp h.rep).2.1).2.1
  cases hn : root near with
  | some a =>
    have hsize : near.size ≤ m.fuel := by
      have h₁ := h.rep.size_lt_fuel
      rw [size_plug, RBTree.size_branch] at h₁
      omega
    rw [firstOr_append]
    simp only [Memory.advance, hx, Option.bind_eq_bind, Option.bind_some, child_mkNode, hn]
    exact Memory.descend_spec d.opp _ hnear hn hsize
  | none =>
    obtain rfl : near = .nil := by
      cases near with
      | nil => rfl
      | node => cases hn
    have hlen : c.length + 1 < m.fuel := by
      have h₁ := h.rep.size_lt_fuel
      have h₂ := Ctx.length_le c
      rw [size_plug, RBTree.size_branch] at h₁
      omega
    obtain ⟨a, b, n, hrun, hcell, hend⟩ :=
      Memory.climb_spec d (child_headerOf d v) h.rep (root_branch ..) hlen
    simp only [Memory.advance, hx, Option.bind_eq_bind, Option.bind_some, child_mkNode, root_nil,
      parent_mkNode, hrun, hcell, RBTree.seq_nil, List.nil_append, ← hend]
    split <;> rfl

namespace HeapTree.SetInv

variable {s : RankSet T} {v : T}

theorem mem_addrs_of_split {x : Item T} {L R : List (Item T)} (hs : t.toList = L ++ x :: R) :
    x.1 ∈ addrs t := by
  simp [addrs, hs]

theorem cell_header (h : SetInv m s v t) : m.cell s.header = some (headerOf s.header v t) :=
  h.rep.headerCell

/-- `operator++` on an iterator. -/
theorem increment_eq (h : SetInv m s v t) {x : Item T} {L R : List (Item T)}
    (hs : t.toList = L ++ x :: R) : m.increment x.1 = some (firstOr s.header R) := by
  obtain ⟨c, red, l, r, rfl, -, hR⟩ := exists_plug_of_split hs
  have hadv := Memory.advance_spec (d := .right)
    (show SetInv m s v (plug c (.branch .right red x r l)) from h)
  rw [Memory.increment, hadv, ← hR, beyond_right]
  rfl

/-- `operator--` on an iterator other than `end()`. -/
theorem decrement_eq (h : SetInv m s v t) {x : Item T} {L R : List (Item T)}
    (hs : t.toList = L ++ x :: R) : m.decrement x.1 = some (firstOr s.header L.reverse) := by
  obtain ⟨c, red, l, r, rfl, hL, -⟩ := exists_plug_of_split hs
  have hcell := h.rep.cell (d := .left)
  have hadv : m.advance .left x.1 = some (firstOr s.header L.reverse) := by
    rw [Memory.advance_spec (show SetInv m s v (plug c (.branch .left red x l r)) from h), ← hL, beyond_left]
    simp [RBTree.seq]
  have hred : red = true → ∃ p, m.cell (top s.header c) = some p ∧ p.parent ≠ some x.1 := by
    rintro rfl
    cases c with
    | nil => exact absurd h.isRB.rootBlack (by simp [plug, RBTree.isRed])
    | cons f c =>
      have h' : SetRep m s.header (headerOf s.header v (plug c (f.fill (.node true l x r))))
        (plug c (f.fill (.node true l x r))) := h.rep
      refine ⟨_, h'.cell, fun he => top_not_mem (setRep_plug.mp h').2.2 ?_⟩
      rw [parent_mkNode] at he
      rw [Option.some.inj he]
      exact mem_addrs_branch.mpr (.inr (.inl (root_mem rfl)))
  simp only [Memory.decrement, hcell, Option.bind_eq_bind, Option.bind_some, isRed_mkNode,
    parent_mkNode]
  split
  · rename_i hr
    obtain ⟨p, hp, hne⟩ := hred hr
    simp [hp, hne, hadv]
  · exact hadv

/-- The in-order walk from any position visits what is left of the sequence. -/
theorem walk_eq (h : SetInv m s v t) : ∀ {L R : List (Item T)} {fuel : Nat}, t.toList = L ++ R →
    R.length < fuel → s.walk m fuel (firstOr s.header R) = some R
  | L, [], fuel + 1, _, _ => by simp [RankSet.walk, RankSet.end']
  | L, x :: R, fuel + 1, hs, hfuel => by
    have hne := h.rep.ne_header (mem_addrs_of_split hs)
    have hinc := h.increment_eq hs
    have hrest := h.walk_eq (L := L ++ [x]) (R := R) (by simpa using hs)
      (by simpa using hfuel)
    obtain ⟨c, red, l, r, rfl, -, -⟩ := exists_plug_of_split hs
    have hcell := h.rep.cell (d := .left)
    simp [RankSet.walk, RankSet.end', hne, hcell, hinc, hrest]

theorem begin_eq (h : SetInv m s v t) : s.begin m = some (firstOr s.header t.toList) := by
  simp [RankSet.begin, h.cell_header, headerOf, RBTree.seq]

theorem contents_eq (h : SetInv m s v t) : s.contents m = some t.toList := by
  have hfuel : t.toList.length < m.fuel := by
    rw [RBTree.toList_length]
    exact h.rep.size_lt_fuel
  simp [RankSet.contents, h.begin_eq, h.walk_eq (L := []) rfl hfuel]

theorem size_eq (h : SetInv m s v t) : s.size m = some t.toList.length := by
  simp [RankSet.size, h.cell_header, headerOf]

theorem empty_eq (h : SetInv m s v t) : s.empty m = some (decide (t.toList = [])) := by
  simp [RankSet.empty, h.cell_header, headerOf, ← RBTree.toList_length]

end HeapTree.SetInv

/-! ## Searching -/

/-- The search descent stops at the first node where it turns left. -/
theorem Memory.search_spec (goLeft : T → Bool) (h : TreeRep m p t) :
    ∀ {L R : List (Item T)} {target : Addr} {fuel : Nat}, t.toList = L ++ R →
      (∀ a ∈ L, goLeft a.2 = false) → (∀ b ∈ R, goLeft b.2 = true) → t.size < fuel →
      m.search goLeft fuel (root t) target = some (firstOr target R) := by
  induction t generalizing p with
  | nil =>
    intro L R target fuel hs hL hR hfuel
    obtain ⟨fuel, rfl⟩ := Nat.exists_eq_succ_of_ne_zero (Nat.ne_of_gt (Nat.zero_lt_of_lt hfuel))
    obtain ⟨rfl, rfl⟩ := List.append_eq_nil_iff.mp hs.symm
    rfl
  | node red l x r ihl ihr =>
    intro L R target fuel hs hL hR hfuel
    obtain ⟨hx, hl, hr⟩ := h
    simp only [RBTree.size] at hfuel
    obtain ⟨fuel, rfl⟩ := Nat.exists_eq_succ_of_ne_zero (Nat.ne_of_gt (Nat.zero_lt_of_lt hfuel))
    rw [root, Memory.search]
    simp only [hx, Option.bind_eq_bind, Option.bind_some]
    cases hgo : goLeft x.2 with
    | true =>
      obtain ⟨M, hlM, rfl⟩ : ∃ M, l.toList = L ++ M ∧ R = M ++ x :: r.toList :=
        SortedList.split_left hs fun hxL => by simp [hL x hxL] at hgo
      rw [firstOr_append, firstOr_cons]
      exact ihl hl hlM hL (fun b hb => hR b (by simp [hb])) (by omega)
    | false =>
      obtain ⟨M, hrM, rfl⟩ : ∃ M, r.toList = M ++ R ∧ L = l.toList ++ x :: M :=
        SortedList.split_right hs fun hxR => by simp [hR x hxR] at hgo
      exact ihr hr hrM (fun a ha => hL a (by simp [ha])) hR (by omega)

/-- `select` walks to the position with the given index. -/
theorem RankSet.selectLoop_spec (s : RankSet T) (h : TreeRep m p t) : ∀ {k fuel : Nat},
    t.size < fuel → s.selectLoop m fuel (root t) k = some (firstOr s.header (t.toList.drop k)) := by
  induction t generalizing p with
  | nil =>
    intro k fuel hfuel
    obtain ⟨fuel, rfl⟩ := Nat.exists_eq_succ_of_ne_zero (Nat.ne_of_gt (Nat.zero_lt_of_lt hfuel))
    simp [RankSet.selectLoop, RBTree.toList]
  | node red l x r ihl ihr =>
    intro k fuel hfuel
    obtain ⟨hx, hl, hr⟩ := h
    simp only [RBTree.size] at hfuel
    obtain ⟨fuel, rfl⟩ := Nat.exists_eq_succ_of_ne_zero (Nat.ne_of_gt (Nat.zero_lt_of_lt hfuel))
    rw [root, RankSet.selectLoop, RBTree.toList]
    simp only [hx, Option.bind_eq_bind, Option.bind_some, hl.countAt]
    rcases Nat.lt_trichotomy k l.size with hk | rfl | hk
    · rw [if_neg (Nat.ne_of_lt hk), if_pos hk, ihl hl (by omega)]
      have hne : l.toList.drop k ≠ [] := by simpa using hk
      rw [List.drop_append_of_le_length (by simpa using Nat.le_of_lt hk), firstOr_append,
        firstOr_congr hne]
    · rw [if_pos rfl, ← RBTree.toList_length, List.drop_left, firstOr_cons]
    · rw [if_neg (Nat.ne_of_gt hk), if_neg (Nat.not_lt_of_gt hk), ihr hr (by omega)]
      have he : l.toList ++ x :: r.toList = (l.toList ++ [x]) ++ r.toList := by simp
      have hdrop : (l.toList ++ [x]).drop k = [] :=
        List.drop_eq_nil_of_le (by rw [List.length_append, RBTree.toList_length]; exact hk)
      rw [he, List.drop_append, hdrop]
      simp

/-- `rank` adds up the subtrees left of the descent. -/
theorem RankSet.rankLoop_spec (s : RankSet T) [SortedList.WeakOrder s.compareFunc] {value : T}
    (h : TreeRep m p t) : ∀ {L R : List (Item T)} {k fuel : Nat}, t.toList = L ++ R →
      SortedList.Cut s.compareFunc value (L.map Prod.snd) (R.map Prod.snd) → t.size < fuel →
      s.rankLoop m value fuel (root t) k = some (k + L.length) := by
  induction t generalizing p with
  | nil =>
    intro L R k fuel hs hcut hfuel
    obtain ⟨fuel, rfl⟩ := Nat.exists_eq_succ_of_ne_zero (Nat.ne_of_gt (Nat.zero_lt_of_lt hfuel))
    obtain ⟨rfl, rfl⟩ := List.append_eq_nil_iff.mp hs.symm
    rfl
  | node red l x r ihl ihr =>
    intro L R k fuel hs hcut hfuel
    obtain ⟨hx, hl, hr⟩ := h
    simp only [RBTree.size] at hfuel
    obtain ⟨fuel, rfl⟩ := Nat.exists_eq_succ_of_ne_zero (Nat.ne_of_gt (Nat.zero_lt_of_lt hfuel))
    rw [root, RankSet.rankLoop]
    simp only [hx, Option.bind_eq_bind, Option.bind_some, hl.countAt]
    by_cases hvx : s.compareFunc value x.2 = true
    · obtain ⟨M, hlM, rfl⟩ : ∃ M, l.toList = L ++ M ∧ R = M ++ x :: r.toList :=
        SortedList.split_left hs fun hxL => by
          have hb := hcut.below x.2 (List.mem_map_of_mem hxL)
          rw [SortedList.lt_asymm hb] at hvx
          cases hvx
      rw [if_pos hvx]
      refine ihl hl hlM (hcut.of_sublist (List.Sublist.refl _) ?_) (by omega)
      exact (List.sublist_append_left M _).map _
    · rw [if_neg hvx]
      by_cases hxv : s.compareFunc x.2 value = true
      · obtain ⟨M, hrM, rfl⟩ : ∃ M, r.toList = M ++ R ∧ L = l.toList ++ x :: M :=
          SortedList.split_right hs fun hxR => by
            have hb := hcut.notBelow x.2 (List.mem_map_of_mem hxR)
            rw [hxv] at hb
            cases hb
        have hsub : List.Sublist M (l.toList ++ x :: M) :=
          (List.sublist_cons_self x M).trans (List.sublist_append_right _ _)
        rw [if_pos hxv, ihr hr hrM (hcut.of_sublist (hsub.map _) (List.Sublist.refl _)) (by omega)]
        simp
        omega
      · obtain ⟨M, hlM, rfl⟩ : ∃ M, l.toList = L ++ M ∧ R = M ++ x :: r.toList :=
          SortedList.split_left hs fun hxL => hxv (hcut.below x.2 (List.mem_map_of_mem hxL))
        -- nothing between the cut and an equivalent element
        have hM : M = [] := by
          cases M with
          | nil => rfl
          | cons y M =>
            have hsort := (List.pairwise_append.mp hcut.sorted).2.1
            have hyx := (List.pairwise_cons.mp hsort).1 x.2 (by simp)
            have hyv := SortedList.lt_of_lt_of_not_lt hyx (Bool.eq_false_iff.mpr hvx)
            rw [hcut.notBelow y.2 (by simp)] at hyv
            cases hyv
        rw [if_neg hxv, ← RBTree.toList_length, hlM, hM, List.append_nil]

/-! ## The queries of a whole set -/

namespace HeapTree

/-- The values of a tree, in order. -/
def values (t : RBTree (Item T)) : List T := t.toList.map Prod.snd

@[simp] theorem length_values (t : RBTree (Item T)) : (values t).length = t.toList.length := by
  simp [values]

/-- The iterator at position `k`; `end()` from the length on. -/
def iterAt (header : Addr) (l : List (Item T)) (k : Nat) : Addr := firstOr header (l.drop k)

theorem iterAt_length (l l' : List (Item T)) :
    iterAt header (l ++ l') l.length = firstOr header l' := by
  simp [iterAt]

theorem iterAt_end (l : List (Item T)) : iterAt header l l.length = header := by
  simp [iterAt]

/-- A cut of the values is a cut of the items. -/
theorem exists_cut {lt : T → T → Bool} [SortedList.WeakOrder lt]
    (h : SortedList.Sorted lt (values t)) (v : T) :
    ∃ L R, t.toList = L ++ R ∧ values t = L.map Prod.snd ++ R.map Prod.snd ∧
      SortedList.Cut lt v (L.map Prod.snd) (R.map Prod.snd) := by
  obtain ⟨L', R', hs, hcut⟩ := SortedList.exists_cut h v
  obtain ⟨L, R, ht, rfl, rfl⟩ := List.map_eq_append_iff.mp hs
  exact ⟨L, R, ht, hs, hcut⟩

namespace SetInv

variable {s : RankSet T} {v : T}

/-- The descent of `lowerBound` stops at the cut. -/
theorem lowerBoundNode_eq (h : SetInv m s v t) {value : T} {L R : List (Item T)}
    (hs : t.toList = L ++ R)
    (hcut : SortedList.Cut s.compareFunc value (L.map Prod.snd) (R.map Prod.snd)) :
    s.lowerBoundNode m value = some (firstOr s.header R) := by
  simp only [RankSet.lowerBoundNode, h.cell_header, Option.bind_eq_bind, Option.bind_some]
  exact Memory.search_spec (fun v => !s.compareFunc v value) h.rep.tree hs
    (fun a ha => by simp [hcut.below a.2 (List.mem_map_of_mem ha)])
    (fun b hb => by simp [hcut.notBelow b.2 (List.mem_map_of_mem hb)]) h.rep.size_lt_fuel

theorem select_eq (h : SetInv m s v t) (k : Nat) :
    s.select m k = some (iterAt s.header t.toList k) := by
  simp only [RankSet.select, RankSet.selectNode, h.cell_header, Option.bind_eq_bind,
    Option.bind_some]
  exact s.selectLoop_spec h.rep.tree h.rep.size_lt_fuel

variable [SortedList.WeakOrder s.compareFunc]

theorem lowerBound_eq (h : SetInv m s v t) (hsort : SortedList.Sorted s.compareFunc (values t))
    (value : T) : s.lowerBound m value =
      some (iterAt s.header t.toList (SortedList.lowerBound s.compareFunc value (values t))) := by
  obtain ⟨L, R, hs, hv, hcut⟩ := exists_cut hsort value
  rw [RankSet.lowerBound, h.lowerBoundNode_eq hs hcut, hv, hcut.lowerBound_eq, hs,
    List.length_map, iterAt_length]

theorem upperBound_eq (h : SetInv m s v t) (hsort : SortedList.Sorted s.compareFunc (values t))
    (value : T) : s.upperBound m value =
      some (iterAt s.header t.toList (SortedList.upperBound s.compareFunc value (values t))) := by
  have hsearch : ∀ {L R : List (Item T)}, t.toList = L ++ R →
      (∀ a ∈ L, s.compareFunc value a.2 = false) → (∀ b ∈ R, s.compareFunc value b.2 = true) →
      s.upperBound m value = some (firstOr s.header R) := by
    intro L R hs hL hR
    simp only [RankSet.upperBound, RankSet.upperBoundNode, h.cell_header, Option.bind_eq_bind,
      Option.bind_some]
    exact Memory.search_spec _ h.rep.tree hs hL hR h.rep.size_lt_fuel
  obtain ⟨L, R, hs, hv, hcut⟩ := exists_cut hsort value
  have hL : ∀ a ∈ L, s.compareFunc value a.2 = false := fun a ha =>
    SortedList.lt_asymm (hcut.below a.2 (List.mem_map_of_mem ha))
  rw [hv, hs]
  cases R with
  | nil =>
    rw [hsearch hs hL (by simp), hcut.upperBound_of_absent (by simp), List.length_map,
      iterAt_length]
  | cons x R =>
    cases hx : s.compareFunc value x.2 with
    | true =>
      have habs := hcut.above_of_absent (by simpa using hx)
      rw [hsearch hs hL fun b hb => habs b.2 (List.mem_map_of_mem hb),
        hcut.upperBound_of_absent (by simpa using hx), List.length_map, iterAt_length]
    | false =>
      have hs' : t.toList = (L ++ [x]) ++ R := by simp [hs]
      rw [hsearch hs' ?_ fun b hb => hcut.above_tail b.2 (List.mem_map_of_mem hb), List.map_cons,
        hcut.upperBound_of_present hx, List.length_map, ← hs, hs']
      · rw [show L.length + 1 = (L ++ [x]).length by simp, iterAt_length]
      · intro a ha
        rcases List.mem_append.mp ha with ha | ha
        · exact hL a ha
        · rw [List.mem_singleton.mp ha]
          exact hx

theorem find_eq (h : SetInv m s v t) (hsort : SortedList.Sorted s.compareFunc (values t))
    (value : T) : s.find m value =
      some (iterAt s.header t.toList (SortedList.find s.compareFunc value (values t))) := by
  obtain ⟨L, R, hs, hv, hcut⟩ := exists_cut hsort value
  simp only [RankSet.find, RankSet.findNode, h.lowerBoundNode_eq hs hcut, Option.bind_eq_bind,
    Option.bind_some]
  rw [hv, hs]
  cases R with
  | nil =>
    rw [hcut.find_of_absent (by simp), ← List.map_append, List.length_map, iterAt_end]
    simp
  | cons x R =>
    obtain ⟨c, red, l, r, rfl, -, -⟩ := exists_plug_of_split hs
    have hne := h.rep.ne_header (mem_addrs_of_split hs)
    have hcell := h.rep.cell (d := .left)
    cases hx : s.compareFunc value x.2 with
    | true =>
      rw [hcut.find_of_absent (by simpa using hx), ← List.map_append, List.length_map, iterAt_end]
      simp [hne, hcell, hx]
    | false =>
      rw [List.map_cons, hcut.find_of_present hx, List.length_map, iterAt_length]
      simp [hne, hcell, hx]

theorem rank_eq (h : SetInv m s v t) (hsort : SortedList.Sorted s.compareFunc (values t))
    (value : T) : s.rank m value = some (SortedList.rank s.compareFunc value (values t)) := by
  obtain ⟨L, R, hs, hv, hcut⟩ := exists_cut hsort value
  rw [hv, hcut.rank_eq, List.length_map]
  simp only [RankSet.rank, RankSet.rankNode, h.cell_header, Option.bind_eq_bind, Option.bind_some]
  have hrank := s.rankLoop_spec h.rep.tree (k := 0) hs hcut h.rep.size_lt_fuel
  rwa [Nat.zero_add] at hrank

end SetInv

end HeapTree

end Brickred
