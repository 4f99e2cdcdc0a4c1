import Brickred.RankSet.Query

/-!
# Insertion: `insertNodeFixup` and `insertNode`

`insertNodeFixupSide_spec` is one iteration of the fixup loop: from a heap tree
in the state `InsertInv` at the focus to one in that state at a focus nearer to
the root, with the same in-order sequence. `insertNodeFixup_spec` runs the loop
and paints the root.

`insertNode` attaches the new leaf in one of four places; `attachNode_spec` is
what they share, for an arbitrary empty place `c` of the tree, and
`insertNode_spec` is the effect of the whole operation on the in-order sequence.
-/

namespace Brickred

open RedBlack RedBlack.Ctx HeapTree

variable {T : Type} {m : Memory T} {hn : RBTreeNode T} {c : Ctx (Item T)} {t : RBTree (Item T)}

namespace RankSet

variable (s : RankSet T)

/-- Case 3: repaint parent and grandparent, rotate the grandparent. -/
theorem insertNodeFixupOuter_spec {d : Dir} {P g : Item T} {S u : RBTree (Item T)} {x : Addr}
    (h : SetRep m s.header hn (plug (⟨d, true, P, S⟩ :: ⟨d, false, g, u⟩ :: c) t))
    (hx : root t = some x) :
    ∃ m', s.insertNodeFixupOuter d m x = some (m', x) ∧
      Rearranged m m' s.header hn (plug (⟨d, true, P, S⟩ :: ⟨d, false, g, u⟩ :: c) t)
        (plug (⟨d, false, P, .branch d true g S u⟩ :: c) t) := by
  obtain ⟨nx, hnx, hpar, -⟩ := h.cellRoot hx
  -- p -> black
  obtain ⟨m₁, hm₁, h₁⟩ := setRed_spec (b := false) (c := ⟨d, false, g, u⟩ :: c) h
  have hp₁ := h₁.rep.cell
  -- g -> red
  obtain ⟨m₂, hm₂, h₂⟩ := setRed_spec (b := true) (c := c) h₁.rep
  -- rotate on g
  have e₂ : plug c (.branch d true g (.branch d false P t S) u) =
      plug c (.branch d.opp true g u (.branch d.opp false P S t)) := by
    rw [RBTree.branch_opp, RBTree.branch_opp]
  obtain ⟨m₃, hm₃, h₃⟩ := rotate_spec s (e₂ ▸ h₂.rep)
  rw [← e₂, RBTree.branch_opp, RBTree.branch_opp] at h₃
  refine ⟨m₃, ?_, (h₁.trans h₂).trans h₃⟩
  simp only [insertNodeFixupOuter, hnx, hpar, top_cons, Option.bind_eq_bind, Option.bind_some,
    hm₁, hp₁, parent_mkNode, hm₂, hm₃]

/-- Case 1: repaint parent, uncle and grandparent. -/
theorem recolor_spec {d d' : Dir} {P g : Item T} {S u : RBTree (Item T)}
    (h : SetRep m s.header hn (plug (⟨d', true, P, S⟩ :: ⟨d, false, g, u⟩ :: c) t)) :
    ∃ m₁ m₂ m₃, m.setRed P.1 false = some m₁ ∧ m₁.setRedIf (root u) false = some m₂ ∧
      m₂.setRed g.1 true = some m₃ ∧
      Rearranged m m₃ s.header hn (plug (⟨d', true, P, S⟩ :: ⟨d, false, g, u⟩ :: c) t)
        (plug c (.branch d true g (.branch d' false P t S) u.blacken)) := by
  have hswap : ∀ v, plug (⟨d, false, g, v⟩ :: c) (.branch d' false P t S) =
      plug (⟨d.opp, false, g, .branch d' false P t S⟩ :: c) v := fun v => plug_swap ..
  obtain ⟨m₁, hm₁, h₁⟩ := setRed_spec (b := false) (c := ⟨d, false, g, u⟩ :: c) h
  obtain ⟨m₂, hm₂, h₂⟩ := setRedIf_spec (hswap u ▸ h₁.rep)
  rw [← hswap, ← hswap] at h₂
  obtain ⟨m₃, hm₃, h₃⟩ := setRed_spec (b := true) (c := c) h₂.rep
  exact ⟨m₁, m₂, m₃, hm₁, hm₂, hm₃, (h₁.trans h₂).trans h₃⟩

/-- One iteration: the focus moves at least one node up. -/
theorem insertNodeFixupSide_spec {d d' : Dir} {P g : Item T} {S u : RBTree (Item T)} {x : Addr}
    (h : SetRep m s.header hn (plug (⟨d', true, P, S⟩ :: ⟨d, false, g, u⟩ :: c) t))
    (hx : root t = some x)
    (hi : InsertInv (⟨d', true, P, S⟩ :: ⟨d, false, g, u⟩ :: c) t) :
    ∃ m' x' c₂ t₂, s.insertNodeFixupSide d m x = some (m', x') ∧ root t₂ = some x' ∧
      c₂.length < c.length + 2 ∧ InsertInv c₂ t₂ ∧
      Rearranged m m' s.header hn (plug (⟨d', true, P, S⟩ :: ⟨d, false, g, u⟩ :: c) t)
        (plug c₂ t₂) := by
  obtain ⟨nx, hnx, hpar, -⟩ := h.cellRoot hx
  have hP := h.cellFrame
  have hG : SetRep m s.header hn (plug (⟨d, false, g, u⟩ :: c) (.branch d' true P t S)) := h
  have hg := hG.cellFrame
  have hu := SetRep.redAt (plug_swap .. ▸ hG)
  have hside := h.root_ne_sib hx
  simp only [top_cons] at hpar hP
  cases hur : u.isRed with
  | true =>
    obtain ⟨m₁, m₂, m₃, e₁, e₂, e₃, h₃⟩ := s.recolor_spec h
    refine ⟨m₃, g.1, c, _, ?_, root_branch .., by omega, hi.recolor hur, h₃⟩
    simp [insertNodeFixupSide, hnx, hpar, hP, hg, hu, hur, e₁, e₂, e₃]
  | false =>
    by_cases hd : d.opp = d'
    · -- the inner child: one rotation of the parent makes it the outer one
      subst hd
      obtain ⟨b₀, y, yi, yo, rfl⟩ := RBTree.exists_branch d hi.red
      obtain rfl : b₀ = true := by simpa using hi.red
      obtain rfl : y.1 = x := by simpa using hx
      have e : plug (⟨d.opp, true, P, S⟩ :: ⟨d, false, g, u⟩ :: c) (.branch d true y yi yo) =
          plug (⟨d, false, g, u⟩ :: c) (.branch d true P S (.branch d true y yi yo)) := by
        rw [plug_swap, Dir.opp_opp]
        rfl
      obtain ⟨m₁, hm₁, h₁⟩ := rotate_spec s (c := ⟨d, false, g, u⟩ :: c) (e ▸ h)
      obtain ⟨m₂, hm₂, h₂⟩ := s.insertNodeFixupOuter_spec
        (c := c) (t := .branch d true P S yi) h₁.rep (root_branch ..)
      rw [show RBTree.branch d true y yi yo = .branch d.opp true y yo yi from
        (RBTree.branch_opp ..).symm] at hi
      refine ⟨m₂, P.1, _, _, ?_, root_branch .., ?_, ?_, e ▸ h₁.trans h₂⟩
      · simp [insertNodeFixupSide, hnx, hpar, hP, hg, hu, hur, hm₁, hm₂]
      · simp
      · exact .of_isRB (hi.rotateInner.rotateOuter hur) (by simp)
    · obtain rfl : d = d' := by
        revert hd
        cases d <;> cases d' <;> simp
      obtain ⟨m₁, hm₁, h₁⟩ := s.insertNodeFixupOuter_spec h hx
      refine ⟨m₁, x, _, t, ?_, hx, ?_, .of_isRB (hi.rotateOuter hur) hi.red, h₁⟩
      · simp [insertNodeFixupSide, hnx, hpar, hP, hg, hu, hur, hside, hm₁]
      · simp

/-- The loop ends with a tree that is red-black once its root is painted. -/
theorem insertNodeFixupLoop_spec : ∀ {fuel : Nat} {m : Memory T} {c : Ctx (Item T)}
    {t : RBTree (Item T)} {x : Addr}, SetRep m s.header hn (plug c t) → root t = some x →
    InsertInv c t → c.length < fuel →
    ∃ m' x' c₂ t₂, s.insertNodeFixupLoop fuel m x = some (m', x') ∧ root t₂ = some x' ∧
      IsRB (plug c₂ t₂).blacken ∧ Rearranged m m' s.header hn (plug c t) (plug c₂ t₂)
  | fuel + 1, m, [], t, x, h, hx, hi, _ => by
    refine ⟨m, x, [], t, ?_, hx, hi.root, .refl h⟩
    have hh := h.headerCell
    rw [show root (plug [] t) = some x from hx] at hh
    simp [insertNodeFixupLoop, hh]
  | fuel + 1, m, f :: c, t, x, h, hx, hi, hfuel => by
    obtain ⟨nx, hnx, hpar, -⟩ := h.cellRoot hx
    have hh := h.headerCell
    have hne := h.root_ne hx
    have hf := h.cellFrame
    simp only [top_cons] at hpar
    cases hred : f.red with
    | false =>
      have hdone := hi.done hred
      refine ⟨m, x, f :: c, t, ?_, hx, ?_, .refl h⟩
      · simp [insertNodeFixupLoop, hh, hnx, hpar, hf, hred]
      · rwa [RBTree.blacken_of_not_red hdone.rootBlack]
    | true =>
      obtain ⟨g, c, rfl, hg⟩ := hi.grandparent hred
      obtain ⟨d', _, P, S⟩ := f
      obtain ⟨d, _, gi, u⟩ := g
      subst hred hg
      have hG : SetRep m s.header hn (plug (⟨d, false, gi, u⟩ :: c) (.branch d' true P t S)) := h
      have hgc := hG.cellFrame
      obtain ⟨m₁, x₁, c₁, t₁, e₁, hx₁, hlt, hi₁, h₁⟩ := s.insertNodeFixupSide_spec h hx hi
      have hfuel₁ : c₁.length < fuel := by
        simp only [List.length_cons] at hlt hfuel
        omega
      obtain ⟨m₂, x₂, c₂, t₂, e₂, hx₂, hrb, h₂⟩ := insertNodeFixupLoop_spec h₁.rep hx₁ hi₁ hfuel₁
      refine ⟨m₂, x₂, c₂, t₂, ?_, hx₂, hrb, h₁.trans h₂⟩
      have hside := side_eq (f := ⟨d, false, gi, u⟩) (t := .branch d' true P t S)
        (by rw [root_branch]; exact hG.root_ne_sib (root_branch ..)) (some (top s.header c))
        ((RBTree.branch d' true P t S).size + u.size + 1)
      simp only [root_branch] at hside hgc
      simp only [insertNodeFixupLoop, hh, Option.bind_eq_bind, Option.bind_some, if_neg hne, hnx,
        hpar, hf, isRed_mkNode, if_true, parent_mkNode, top_cons, hgc, hside, e₁, e₂]

/-- `insertNodeFixup` from a fresh red leaf, or any red node whose parent may
be red: the result is a red-black tree with the same in-order sequence. -/
theorem insertNodeFixup_spec {x : Addr} (h : SetRep m s.header hn (plug c t))
    (hx : root t = some x) (hi : InsertInv c t) :
    ∃ m' t', s.insertNodeFixup m x = some m' ∧ IsRB t' ∧
      Rearranged m m' s.header hn (plug c t) t' := by
  have hlen : c.length < m.fuel := Nat.lt_of_le_of_lt (length_le_size_plug c t) h.size_lt_fuel
  obtain ⟨m₁, x₁, c₁, t₁, e₁, hx₁, hrb, h₁⟩ := s.insertNodeFixupLoop_spec h hx hi hlen
  obtain ⟨f, l, rfl, rfl⟩ := exists_fill hx₁
  obtain ⟨m₂, e₂, h₂⟩ := updateNodeCountToTop_rearranged (c := f :: c₁) (t := l) s h₁.rep
  have hroot := h₂.rep.headerCell
  obtain ⟨r, hr⟩ : ∃ r, root (plug (f :: c₁) l) = some r := by
    obtain ⟨r, hr, -⟩ := ctxAddrs_root_mem f c₁
    exact ⟨r, hr l⟩
  obtain ⟨m₃, e₃, h₃⟩ := setRedIf_spec (c := []) h₂.rep
  refine ⟨m₃, _, ?_, hrb, (h₁.trans h₂).trans h₃⟩
  replace e₃ : m₂.setRedIf (root (plug (f :: c₁) l)) false = some m₃ := e₃
  rw [hr] at e₃
  simp only [insertNodeFixup, e₁, Option.bind_eq_bind, Option.bind_some]
  rw [top_cons] at e₂
  simp only [e₂, Option.bind_some, hroot, hr]
  exact e₃

/-! ## Attaching a leaf -/

/-- The header once the new node `m.next` is linked into the empty place `c`:
its extremes are right, its count is not yet. -/
def attachedHeader (m : Memory T) (s : RankSet T) (v : T) (c : Ctx (Item T)) : RBTreeNode T :=
  { headerOf s.header v (plug c .nil) with
    left := some (firstOr m.next (before c))
    right := some (firstOr m.next (after c).reverse) }

section Attach

variable {v value : T} (h : SetInv m s v (plug c .nil))
include h

/-- Every address of the set is allocated. -/
theorem ne_next {a : Addr} (ha : a ∈ s.header :: ctxAddrs c) : a ≠ m.next := by
  rintro rfl
  have hnone := m.fresh m.next (Nat.le_refl _)
  rcases List.mem_cons.mp ha with ha | ha
  · rw [ha, h.cell_header] at hnone
    cases hnone
  · obtain ⟨x, hx⟩ := h.rep.tree.cell_ne_none m.next (mem_addrs_plug.mpr (.inl ha))
    rw [hx] at hnone
    cases hnone

/-- Allocation leaves the set as it is. -/
theorem alloc_ctxRep (n : RBTreeNode T) :
    CtxRep (m.alloc n).1 s.header (headerOf s.header v (plug c .nil)) true c none 0 := by
  have hc := (setRep_plug.mp h.rep).1
  refine hc.congr ?_ fun a ha => ?_
  · exact if_neg (s.ne_next h (by simp))
  · exact if_neg (s.ne_next h (by simp [ha]))

/-- A new red leaf is linked into the empty place `c` by `link`, which also
moves the header's extremes; counting and rebalancing complete the insertion. -/
theorem attachNode_spec {link : Memory T → Addr → Option (Memory T)} {m₂ : Memory T}
    (hlink : link (m.alloc (.leaf (some (top s.header c)) value)).1 m.next = some m₂)
    (hctx : CtxRep m₂ s.header (attachedHeader m s v c) false c (some m.next) 0)
    (hloc : ObjectHeap.Local (s.header :: ctxAddrs c)
      (m.alloc (.leaf (some (top s.header c)) value)).1 m₂) :
    ∃ m' t', s.attachNode m (top s.header c) value link = some (m', m.next, true) ∧
      SetInv m' s v t' ∧ t'.toList = before c ++ (m.next, value) :: after c ∧
      ObjectHeap.Outside (s.header :: addrs (plug c .nil)) m m' := by
  set t₀ := plug c (.branch .left true (m.next, value) .nil .nil) with ht₀
  have hnext : m₂.next = m.next + 1 := hloc.1
  have hnew : m.next ∉ s.header :: ctxAddrs c := fun hmem => s.ne_next h hmem rfl
  -- count the new node and its ancestors
  have hcell : m₂.cell m.next = some (mkNode .left true (some (top s.header c)) none none 0 value) :=
    (hloc.2 _ hnew).trans (ObjectHeap.cell_alloc_next _)
  have hF : CtxRep m₂ s.header (attachedHeader m s v c) false
      (⟨.left, true, (m.next, value), .nil⟩ :: c) (root (.nil : RBTree (Item T))) 0 :=
    ⟨⟨0, fun h => absurd h (by simp), hcell⟩, trivial, hctx.loose⟩
  have hnd : (s.header :: (ctxAddrs (⟨.left, true, (m.next, value), .nil⟩ :: c) ++
      addrs (.nil : RBTree (Item T)))).Nodup := by
    have hnd₀ := (setRep_plug.mp h.rep).2.2
    simp only [ctxAddrs, addrs_nil, List.nil_append, List.append_nil, List.nodup_cons,
      List.mem_cons, not_or] at hnd₀ hnew ⊢
    exact ⟨⟨Ne.symm hnew.1, hnd₀.1⟩, hnew.2, hnd₀.2⟩
  have hlen : c.length + 1 < m₂.fuel := by
    have h₁ := Nat.lt_of_le_of_lt (length_le_size_plug c .nil) h.rep.size_lt_fuel
    rw [Memory.fuel] at h₁ ⊢
    rw [hnext]
    exact Nat.succ_lt_succ h₁
  obtain ⟨m₃, e₃, h₃, hl₃⟩ := updateNodeCountToTop_spec s hF trivial hnd hlen
  -- count the set's elements
  have h₄ := h₃.updateHeader
    (f := fun n => { n with nodeCount := n.nodeCount + 1 })
    (headerOf s.header v t₀) fun p => by
      simp [headerOf, attachedHeader, ht₀, size_plug, RBTree.size, RBTree.seq, toList_plug,
        RBTree.branch, RBTree.toList, firstOr_append, Nat.add_right_comm]
  have e₄ := ObjectHeap.modify_eq (f := fun n => { n with nodeCount := n.nodeCount + 1 })
    h₃.headerCell
  -- rebalance
  obtain ⟨m₅, t', e₅, hrb, h₅⟩ := s.insertNodeFixup_spec (c := c)
    (t := .branch .left true (m.next, value) .nil .nil) h₄ (root_branch ..) (.leaf h.isRB _ _)
  have hlist : t'.toList = t₀.toList := h₅.toList
  refine ⟨m₅, t', ?_, ⟨?_, hrb⟩, ?_, ?_⟩
  · have e₅' : s.insertNodeFixup (m₃.update s.header fun n =>
        { n with nodeCount := n.nodeCount + 1 }) m.next = some m₅ := e₅
    rw [top_cons] at e₃
    unfold attachNode
    simp only [ObjectHeap.alloc] at hlink ⊢
    simp only [hlink, Option.bind_eq_bind, Option.bind_some, e₃, e₄, e₅']
  · exact h₅.rep.congrHeader (by simp [headerOf, RBTree.seq, hlist, ← RBTree.toList_length])
  · rw [hlist, ht₀, toList_plug]
    simp [RBTree.branch, RBTree.toList]
  · have hmem : ∀ {a}, a < m.next → a ∈ s.header :: (m.next :: ctxAddrs c) →
        a ∈ s.header :: addrs (plug c .nil) := by
      intro a ha hac
      simp only [List.mem_cons, mem_addrs_plug, addrs_nil, List.not_mem_nil, or_false] at hac ⊢
      rcases hac with hac | rfl | hac
      · exact .inl hac
      · exact absurd ha (Nat.lt_irrefl _)
      · exact .inr hac
    have hl₄ : ObjectHeap.Local (s.header :: (m.next :: ctxAddrs c)) m₂ m₅ := by
      refine ((hl₃.mono ?_).trans (.update m₃ _ (by simp))).trans (h₅.written.mono ?_)
      · intro a ha
        simp only [ctxAddrs, addrs_nil, List.nil_append] at ha
        exact List.mem_cons_of_mem _ ha
      · intro a ha
        simp only [List.mem_cons, mem_addrs_plug, mem_addrs_branch, addrs_nil, List.not_mem_nil,
          or_false] at ha ⊢
        tauto
    have hl₁ := ObjectHeap.outside_alloc (s.header :: addrs (plug c .nil)) m
      (.leaf (some (top s.header c)) value)
    refine (hl₁.trans hloc.outside fun a ha h' => hmem h' ?_).trans hl₄.outside
      fun a ha h' => hmem h' ha
    simp only [List.mem_cons] at ha ⊢
    tauto

/-- The pointer write that links the new node below its parent. -/
theorem setChild_attach {f : Frame (Item T)} {c' : Ctx (Item T)} (hc : c = f :: c')
    (n : RBTreeNode T) :
    ∃ m₂, Memory.setChild (m.alloc n).1 f.item.1 f.dir (some m.next) = some m₂ ∧
      CtxRep m₂ s.header (headerOf s.header v (plug c .nil)) false c (some m.next) 0 ∧
      ObjectHeap.Local (s.header :: ctxAddrs c) (m.alloc n).1 m₂ := by
  have hctx := s.alloc_ctxRep h n
  have hnd : (s.header :: ctxAddrs c).Nodup := by simpa using (setRep_plug.mp h.rep).2.2
  obtain ⟨x, hx⟩ := hctx.cell_top
  subst hc
  exact ⟨_, ObjectHeap.modify_eq hx, (hctx.setHole hnd _).loose, .update _ _ (by simp [ctxAddrs])⟩

end Attach

/-- What `insertNode` does when it adds `value` between `L` and `R`. -/
def Inserts (m : Memory T) (v value : T) (t : RBTree (Item T)) (L R : List (Item T))
    (r : Option (Memory T × Addr × Bool)) : Prop :=
  ∃ m' t', r = some (m', m.next, true) ∧ SetInv m' s v t' ∧
    t'.toList = L ++ (m.next, value) :: R ∧ ObjectHeap.Outside (s.header :: addrs t) m m'

section Places

variable {v : T} (value : T) {x : Item T} {red : Bool} {sib : RBTree (Item T)}

theorem attach_empty (h : SetInv m s v .nil) :
    s.Inserts m v value .nil [] [] (s.attachNode m s.header value fun m newNode =>
      m.modify s.header fun h =>
        { h with parent := some newNode, left := some newNode, right := some newNode }) := by
  have hh : (m.alloc (.leaf (some s.header) value)).1.cell s.header = _ :=
    s.alloc_ctxRep (c := []) h (.leaf (some s.header) value)
  have hlink := ObjectHeap.modify_eq (f := fun h =>
    { h with parent := some m.next, left := some m.next, right := some m.next }) hh
  refine s.attachNode_spec (c := []) h hlink ?_ (.update _ _ (by simp))
  exact (ObjectHeap.cell_update_self hh).trans rfl

/-- Linking below an actual node: the child pointer, then the header's
extremes where they change. -/
theorem attach_below {f : Frame (Item T)} (hdr : Memory T → Addr → Option (Memory T))
    (h : SetInv m s v (plug (f :: c) .nil))
    (hhdr : ∀ {m₂ : Memory T} {p : Ptr},
      m₂.cell s.header = some { headerOf s.header v (plug (f :: c) .nil) with parent := p } →
      ∃ m₃, hdr m₂ m.next = some m₃ ∧ ObjectHeap.Local [s.header] m₂ m₃ ∧
        m₃.cell s.header = some { attachedHeader m s v (f :: c) with parent := p }) :
    s.Inserts m v value (plug (f :: c) .nil) (before (f :: c)) (after (f :: c))
      (s.attachNode m f.item.1 value fun m newNode => do
        let m ← m.setChild f.item.1 f.dir (some newNode)
        hdr m newNode) := by
  obtain ⟨m₂, e₂, h₂, hl₂⟩ := s.setChild_attach h rfl (.leaf (some f.item.1) value)
  obtain ⟨q, hh₂⟩ := h₂.headerCell
  obtain ⟨m₃, e₃, hl₃, hh₃⟩ := hhdr hh₂
  have hlink : (Memory.setChild (m.alloc (.leaf (some f.item.1) value)).1 f.item.1 f.dir
      (some m.next)).bind (fun m₁ => hdr m₁ m.next) = some m₃ := by
    rw [e₂]
    exact e₃
  refine s.attachNode_spec (c := f :: c) h hlink (h₂.reheader ?_ ?_) (hl₂.trans (hl₃.mono ?_))
  · intro a ha
    refine hl₃.2 a fun hmem => ?_
    rw [List.mem_singleton.mp hmem] at ha
    exact (List.nodup_cons.mp (setRep_plug.mp h.rep).2.2).1 (List.mem_append_left _ ha)
  · intro p hp
    rw [hh₂] at hp
    rw [hh₃]
    simp only [Option.some.injEq, RBTreeNode.mk.injEq, true_and, and_true] at hp ⊢
    simp [hp]
  · intro a ha
    simp [List.mem_singleton.mp ha]

/-- insert at end() -/
theorem attach_max (h : SetInv m s v (plug (⟨.right, red, x, sib⟩ :: c) .nil))
    (hspine : after c = []) :
    s.Inserts m v value (plug (⟨.right, red, x, sib⟩ :: c) .nil)
      (before (⟨.right, red, x, sib⟩ :: c)) (after (⟨.right, red, x, sib⟩ :: c))
      (s.attachNode m x.1 value fun m newNode => do
        let m ← m.setChild x.1 .right (some newNode)
        m.setChild s.header .right (some newNode)) := by
  refine s.attach_below value _ h fun {m₂ p} hp => ⟨_, ObjectHeap.modify_eq hp, .update _ _ (by simp), ?_⟩
  rw [ObjectHeap.cell_update_self hp]
  simp [headerOf, attachedHeader, RBTreeNode.setChild, RBTree.seq, toList_plug, RBTree.toList, before,
    after, hspine, firstOr_append]

/-- insert below the first larger node, which has no left child -/
theorem attach_left (h : SetInv m s v (plug (⟨.left, red, x, sib⟩ :: c) .nil)) :
    s.Inserts m v value (plug (⟨.left, red, x, sib⟩ :: c) .nil)
      (before (⟨.left, red, x, sib⟩ :: c)) (after (⟨.left, red, x, sib⟩ :: c))
      (s.attachNode m x.1 value fun m newNode => do
        let m ← m.setChild x.1 .left (some newNode)
        let h ← m.cell s.header
        if h.left = some x.1 then m.setChild s.header .left (some newNode) else some m) := by
  refine s.attach_below value (fun m newNode => do
      let h ← m.cell s.header
      if h.left = some x.1 then m.setChild s.header .left (some newNode) else some m) h
    fun {m₂ p} hp => ?_
  have hnd := (List.nodup_cons.mp h.rep.nodup).2
  rw [addrs, toList_plug] at hnd
  cases hb : before c with
  | nil =>
    refine ⟨_, ?_, ObjectHeap.Local.update (a := s.header) m₂
      (fun n => n.setChild .left (some m.next)) (by simp), ?_⟩
    · simp [hp, headerOf, RBTree.seq, toList_plug, RBTree.toList, before, after, hb, Memory.setChild,
        ObjectHeap.modify]
    · rw [ObjectHeap.cell_update_self hp]
      simp [headerOf, attachedHeader, RBTreeNode.setChild, RBTree.seq, toList_plug, RBTree.toList,
        before, after, hb, firstOr_append]
  | cons y M =>
    have hyx : y.1 ≠ x.1 := by
      simp only [before, after, hb, RBTree.toList, List.append_nil, List.cons_append, List.map_cons,
        List.nodup_cons] at hnd
      exact fun he => hnd.1 (by simp [he])
    refine ⟨m₂, ?_, .refl _ _, ?_⟩
    · simp [hp, headerOf, RBTree.seq, toList_plug, RBTree.toList, before, after, hb, hyx]
    · rw [hp]
      simp [headerOf, attachedHeader, RBTree.seq, toList_plug, RBTree.toList,
        before, after, hb, firstOr_append]

/-- insert below the predecessor of the first larger node -/
theorem attach_pred (h : SetInv m s v (plug (⟨.right, red, x, sib⟩ :: c) .nil))
    (hafter : after c ≠ []) :
    s.Inserts m v value (plug (⟨.right, red, x, sib⟩ :: c) .nil)
      (before (⟨.right, red, x, sib⟩ :: c)) (after (⟨.right, red, x, sib⟩ :: c))
      (s.attachNode m x.1 value fun m newNode => do
        let m ← m.setChild x.1 .right (some newNode)
        let h ← m.cell s.header
        if h.right = some x.1 then m.setChild s.header .right (some newNode) else some m) := by
  refine s.attach_below value (fun m newNode => do
      let h ← m.cell s.header
      if h.right = some x.1 then m.setChild s.header .right (some newNode) else some m) h
    fun {m₂ p} hp => ⟨m₂, ?_, .refl _ _, ?_⟩
  · obtain ⟨A, z, hz⟩ : ∃ A z, after c = A ++ [z] := ⟨_, _, (List.dropLast_append_getLast hafter).symm⟩
    have hnd := (List.nodup_cons.mp h.rep.nodup).2
    have hzx : z.1 ≠ x.1 := by
      rw [addrs, toList_plug] at hnd
      intro he
      simp [before, after, hz, RBTree.toList, List.nodup_append, he] at hnd
    simp [hp, headerOf, RBTree.seq, toList_plug, RBTree.toList, before, after, hz, hzx]
  · rw [hp]
    simp [headerOf, attachedHeader, RBTree.seq, toList_plug, RBTree.toList, before, after,
      firstOr_append]
    exact firstOr_congr (by simpa using hafter)

end Places

section InsertNode

variable {v value : T} {x : Item T} {L R : List (Item T)}

/-- **`insertNode`, element present**: nothing changes, and the iterator is the
element already there. -/
theorem insertNode_present (h : SetInv m s v t) (hs : t.toList = L ++ x :: R)
    (hcut : SortedList.Cut s.compareFunc value (L.map Prod.snd) ((x :: R).map Prod.snd))
    (hx : s.compareFunc value x.2 = false) : s.insertNode m value = some (m, x.1, false) := by
  have hlower := h.lowerBoundNode_eq hs hcut
  simp only [lowerBoundNode, h.cell_header, Option.bind_eq_bind, Option.bind_some] at hlower
  obtain ⟨c, red, l, r, rfl, -, -⟩ := exists_plug_of_split hs
  have hne := h.rep.ne_header (SetInv.mem_addrs_of_split hs)
  have hcell := h.rep.cell (d := .left)
  have hsize : (plug c (.node red l x r)).size ≠ 0 := by
    rw [← RBTree.toList_length, hs]
    simp
  simp [insertNode, h.cell_header, hlower, hne, hcell, hx, show (headerOf s.header v
    (plug c (.node red l x r))).nodeCount = (plug c (.node red l x r)).size from rfl, hsize]

/-- **`insertNode`, element absent**: the new node takes its place in the
sequence. -/
theorem insertNode_absent (h : SetInv m s v t) (hs : t.toList = L ++ R)
    (hcut : SortedList.Cut s.compareFunc value (L.map Prod.snd) (R.map Prod.snd))
    (habs : ∀ b ∈ R.head?, s.compareFunc value b.2 = true) :
    s.Inserts m v value t L R (s.insertNode m value) := by
  have hlower := h.lowerBoundNode_eq hs hcut
  simp only [lowerBoundNode, h.cell_header, Option.bind_eq_bind, Option.bind_some] at hlower
  have hcount : ∀ t', (headerOf s.header v t').nodeCount = t'.size := fun _ => rfl
  by_cases ht : t = .nil
  · subst ht
    obtain ⟨rfl, rfl⟩ := List.append_eq_nil_iff.mp hs.symm
    have hins := s.attach_empty value h
    simpa only [insertNode, h.cell_header, Option.bind_eq_bind, Option.bind_some, hcount,
      RBTree.size, if_true] using hins
  have hsize : t.size ≠ 0 := by
    cases t with
    | nil => exact absurd rfl ht
    | node => simp [RBTree.size]
  cases R with
  | nil =>
    obtain ⟨c, red, x, far, rfl, hspine⟩ := exists_spine .right t ht
    have hafter : after c = [] := by
      rw [← beyond_right]
      exact beyond_spine hspine
    have h' : SetInv m s v (plug (⟨.right, red, x, far⟩ :: c) .nil) := h
    have hins := s.attach_max value h' hafter
    have hL : before (⟨.right, red, x, far⟩ :: c) = L := by
      rw [List.append_nil, show plug c (.branch .right red x .nil far) =
        plug (⟨.right, red, x, far⟩ :: c) .nil from rfl, toList_plug] at hs
      simpa [after, hafter, RBTree.toList] using hs
    have hmax : (headerOf s.header v (plug c (.branch .right red x .nil far))).right = some x.1 := by
      simp [headerOf, seq_plug, beyond_spine hspine]
    rw [hL, after, hafter] at hins
    simp only [insertNode, h.cell_header, Option.bind_eq_bind, Option.bind_some, hcount,
      if_neg hsize, hlower, firstOr_nil, if_true, hmax]
    exact hins
  | cons x R =>
    obtain ⟨c, red, l, r, rfl, hL, hR⟩ := exists_plug_of_split hs
    have hne := h.rep.ne_header (SetInv.mem_addrs_of_split hs)
    have hcell := h.rep.cell (d := .left)
    have hx : s.compareFunc value x.2 = true := habs x rfl
    by_cases hl : l = .nil
    · subst hl
      have h' : SetInv m s v (plug (⟨.left, red, x, r⟩ :: c) .nil) := h
      have hins := s.attach_left value h'
      rw [before, after, List.cons_append, hR] at hins
      rw [RBTree.toList, List.append_nil] at hL
      rw [hL] at hins
      simp only [insertNode, h.cell_header, Option.bind_eq_bind, Option.bind_some, hcount,
        if_neg hsize, hlower, firstOr_cons, if_neg hne, hcell, value_mkNode, hx]
      exact hins
    · obtain ⟨c₁, red', y, far, rfl, hspine⟩ := exists_spine .right l hl
      have hafter : after c₁ = [] := by
        rw [← beyond_right]
        exact beyond_spine hspine
      set c₂ := c₁ ++ ⟨.left, red, x, r⟩ :: c with hc₂
      have hplug : plug c (.node red (plug c₁ (.branch .right red' y .nil far)) x r) =
          plug (⟨.right, red', y, far⟩ :: c₂) .nil := by
        rw [hc₂, plug, plug_append]
        rfl
      have hb : before (⟨.right, red', y, far⟩ :: c₂) = L := by
        rw [← hL, before, hc₂, before_append, toList_plug, hafter]
        simp [before, RBTree.branch, RBTree.toList]
      have ha : after c₂ = x :: R := by
        rw [hc₂, after_append, hafter, List.nil_append, after, List.cons_append, hR]
      -- the predecessor of the first larger node
      obtain ⟨a, hroot⟩ : ∃ a, root (plug c₁ (.branch .right red' y .nil far)) = some a := by
        cases hp : plug c₁ (.branch .right red' y .nil far) with
        | nil => exact absurd hp hl
        | node => exact ⟨_, rfl⟩
      have hdesc : m.descend .right m.fuel a = some y.1 := by
        have hl' := (setRep_plug.mp h.rep).2.1.2.1
        have hfuel := h.rep.size_lt_fuel
        rw [size_plug, RBTree.size] at hfuel
        rw [Memory.descend_spec .right s.header hl' hroot (by omega), seq_plug,
          beyond_spine hspine]
        simp
      have h' : SetInv m s v (plug (⟨.right, red', y, far⟩ :: c₂) .nil) := hplug ▸ h
      have hins := s.attach_pred value h' (by simp [ha])
      rw [hb, after, ha, ← hplug] at hins
      simp only [insertNode, h.cell_header, Option.bind_eq_bind, Option.bind_some, hcount,
        if_neg hsize, hlower, firstOr_cons, if_neg hne, hcell, hx, Bool.not_true,
        hroot, Bool.false_eq_true, if_false, mkNode, hdesc]
      exact hins

end InsertNode

end RankSet

end Brickred
