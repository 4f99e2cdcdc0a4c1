import Brickred.RankSet.Erase

/-!
# Deletion: `eraseNode`

`eraseNode` works in three steps: it moves the header's extremes away from the
node, unlinks the node (`eraseNodeSplice` when it has at most one child,
`eraseNodeRelink` when its successor takes its place), and repairs counts and
colours. `Unlinked` is the state between the second and the third step.
-/

namespace Brickred

open RedBlack RedBlack.Ctx HeapTree

variable {T : Type} {m : Memory T} {hn : RBTreeNode T} {c : Ctx (Item T)} {t : RBTree (Item T)}

namespace RankSet

variable (s : RankSet T)

/-! ## The extremes -/

section MinMax

variable {v : T} {z : Item T} {L R : List (Item T)}

/-- The header once the extremes no longer count the node between `L` and `R`. -/
def shrunkHeader (v : T) (t : RBTree (Item T)) (L R : List (Item T)) : RBTreeNode T :=
  { headerOf s.header v t with
    left := some (firstOr s.header (L ++ R))
    right := some (firstOr s.header (L ++ R).reverse) }

theorem eraseNodeMinMax_spec (h : SetInv m s v t) (hs : t.toList = L ++ z :: R) :
    ∃ m', s.eraseNodeMinMax m z.1 = some m' ∧ SetRep m' s.header (s.shrunkHeader v t L R) t ∧
      ObjectHeap.Local [s.header] m m' := by
  have hinc := h.increment_eq hs
  have hdec := h.decrement_eq hs
  have hnd := (List.nodup_cons.mp h.rep.nodup).2
  rw [addrs, hs, List.map_append, List.map_cons] at hnd
  have hne : ∀ y ∈ L ++ R, y.1 ≠ z.1 := by
    intro y hy he
    have hyz : y.1 ∈ L.map Prod.fst ++ R.map Prod.fst := by
      rw [← List.map_append]
      exact List.mem_map_of_mem hy
    rw [he] at hyz
    exact (List.nodup_cons.mp (List.perm_middle.nodup_iff.mp hnd)).1 hyz
  have hH : headerOf s.header v t = ⟨true, root t, some (firstOr z.1 L),
      some (firstOr z.1 R.reverse), L.length + R.length + 1, v⟩ := by
    simp [headerOf, RBTree.seq, hs, firstOr_append, ← RBTree.toList_length, Nat.add_assoc]
  have hh := h.cell_header
  rw [hH] at hh
  -- one write to the header
  have hwrite : ∀ (d : Dir) (q : Addr), (∀ p, ({ headerOf s.header v t with parent := p } :
        RBTreeNode T).setChild d (some q) = { s.shrunkHeader v t L R with parent := p }) →
      ∃ m', m.setChild s.header d (some q) = some m' ∧
        SetRep m' s.header (s.shrunkHeader v t L R) t ∧ ObjectHeap.Local [s.header] m m' :=
    fun d q hf => ⟨_, ObjectHeap.modify_eq hh, h.rep.updateHeader _ hf, .update _ _ (by simp)⟩
  simp only [eraseNodeMinMax, hh, Option.bind_eq_bind, Option.bind_some, hinc, hdec]
  rcases List.eq_nil_or_concat R with rfl | ⟨B, b, rfl⟩
  · cases L with
    | nil =>
      have h₁ := h.rep.updateHeader (f := fun n => n.setChild .left (some s.header))
        { headerOf s.header v t with left := some s.header } fun p => rfl
      have h₂ := h₁.updateHeader (f := fun n => n.setChild .right (some s.header))
        (s.shrunkHeader v t [] []) fun p => rfl
      refine ⟨_, ?_, h₂, (ObjectHeap.Local.update m _ (by simp)).trans (.update _ _ (by simp))⟩
      rw [if_pos (by simp)]
      simp only [Memory.setChild, ObjectHeap.modify_eq hh, Option.bind_some]
      exact ObjectHeap.modify_eq h₁.headerCell
    | cons a L =>
      have ha := hne a (by simp)
      rw [if_neg (by simp), if_neg (by simpa using ha), if_pos (by simp)]
      refine hwrite .right _ fun p => ?_
      simp [hH, shrunkHeader, RBTreeNode.setChild]
  · have hb := hne b (by simp)
    cases L with
    | nil =>
      rw [if_neg (by simp), if_pos (by simp)]
      refine hwrite .left _ fun p => ?_
      simp [hH, shrunkHeader, RBTreeNode.setChild]
    | cons a L =>
      have ha := hne a (by simp)
      rw [if_neg (by simp), if_neg (by simpa using ha), if_neg (by simpa using hb)]
      refine ⟨m, rfl, h.rep.congrHeader ?_, .refl _ _⟩
      simp [hH, shrunkHeader]

end MinMax

/-! ## Unlinking -/

/-- The node `z` is out of the tree: what is left is the focus `x` in the
context `c`, with counts still to be repaired, and `z` carries the colour of
the place that has gone. -/
structure Unlinked (m : Memory T) (s : RankSet T) (hn : RBTreeNode T) (z : Addr) (red : Bool)
    (c : Ctx (Item T)) (x : RBTree (Item T)) : Prop where
  ctx : CtxRep m s.header hn false c (root x) 0
  tree : TreeRep m (some (top s.header c)) x
  nodup : (z :: s.header :: (ctxAddrs c ++ addrs x)).Nodup
  cell : ∃ n, m.cell z = some n ∧ n.isRed = red

/-- A node with at most one child is spliced out. -/
theorem eraseNodeSplice_spec {d : Dir} {red : Bool} {z : Item T} {x : RBTree (Item T)}
    (h : SetRep m s.header hn (plug c (.branch d red z .nil x))) :
    ∃ m', s.eraseNodeSplice m z.1 (root x) = some (m', top s.header c) ∧
      Unlinked m' s hn z.1 red c x ∧
      ObjectHeap.Local (s.header :: addrs (plug c (.branch d red z .nil x))) m m' := by
  obtain ⟨hc, ht, hnd⟩ := setRep_plug.mp h
  obtain ⟨hz, -, hx⟩ := treeRep_branch.mp ht
  have hnd' : (z.1 :: s.header :: (ctxAddrs c ++ addrs x)).Nodup := by
    refine (List.Perm.nodup_iff ?_).mp hnd
    refine (List.Perm.cons _ ?_).trans (List.Perm.swap _ _ _)
    refine (List.Perm.append_left _ (addrs_branch_perm d red z .nil x)).trans ?_
    exact List.perm_middle
  obtain ⟨hznd, hnd₁⟩ := List.nodup_cons.mp hnd'
  have hsub : (s.header :: ctxAddrs c).Nodup :=
    hnd₁.sublist (List.Sublist.cons_cons _ (List.sublist_append_left _ _))
  have htop := top_not_mem hnd₁
  have htopz : top s.header c ≠ z.1 := by
    intro he
    have hm := top_mem s.header c
    rw [he] at hm
    exact hznd (by simp only [List.mem_cons, List.mem_append] at hm ⊢; tauto)
  simp only [List.mem_cons, List.mem_append, not_or] at hznd
  -- x takes z's parent
  obtain ⟨m₁, e₁, hx₁, hl₁⟩ := setParentIf_spec hx
    (List.nodup_append.mp (List.nodup_cons.mp hnd₁).2).2.1 (top s.header c)
  have hoff : ∀ a ∈ s.header :: ctxAddrs c, m₁.cell a = m.cell a := by
    intro a ha
    refine hl₁.2 a fun hax => ?_
    exact (List.nodup_append.mp (show ((s.header :: ctxAddrs c) ++ addrs x).Nodup from hnd₁)).2.2
      a ha a hax rfl
  have hz₁ := (hl₁.2 z.1 hznd.2.2).trans hz
  -- z's parent points to x
  have e₂ := replaceChild_eq s _ .left (root x) h (root_branch ..) (hoff _ (by simp))
    (hoff _ (top_mem ..)) hz₁ parent_mkNode
  refine ⟨m₁.update (top s.header c) (setHole c (root x)), ?_,
    ⟨?_, ?_, hnd', _, (ObjectHeap.cell_update_ne (Ne.symm htopz)).trans hz₁, isRed_mkNode⟩,
    (hl₁.mono ?_).trans (.update m₁ _ ?_)⟩
  · simp only [eraseNodeSplice, hz, Option.bind_eq_bind, Option.bind_some, parent_mkNode, e₁, e₂]
  · exact ((hc.congr (hoff _ (by simp)) fun a ha => hoff a (by simp [ha])).setHole hsub _).loose
  · exact hx₁.congr fun a ha => ObjectHeap.cell_update_ne (by rintro rfl; exact htop ha)
  · intro a ha
    simp [mem_addrs_plug, mem_addrs_branch, ha]
  · have hm := top_mem s.header c
    simp only [List.mem_cons, mem_addrs_plug] at hm ⊢
    tauto

end RankSet

/-! ## Relinking the successor -/

namespace HeapTree

variable {m' : Memory T} {header q : Addr} {hole : Ptr} {n : Nat}

/-- A stretch `c` of a path below the node `q`, around a hole, with free counts. -/
def SegRep (m : Memory T) (q : Addr) : Ctx (Item T) → Ptr → Prop
  | [], _ => True
  | f :: c, hole =>
    (∃ k, m.cell f.item.1 =
      some (mkNode f.dir f.red (some (top q c)) hole (root f.sib) k f.item.2)) ∧
      TreeRep m (some f.item.1) f.sib ∧ SegRep m q c (some f.item.1)

theorem top_append (c : Ctx (Item T)) (f : Frame (Item T)) (c' : Ctx (Item T)) :
    top header (c ++ f :: c') = top f.item.1 c := by
  cases c <;> rfl

/-- A path with a distinguished node is the stretch below it and the path at it. -/
theorem ctxRep_append {f : Frame (Item T)} {c' : Ctx (Item T)} :
    CtxRep m header hn false (c ++ f :: c') (root t) n ↔
      SegRep m f.item.1 c (root t) ∧ CtxRep m header hn false (f :: c') (root (plug c t)) n := by
  induction c generalizing t n with
  | nil => exact ⟨fun h => ⟨trivial, h⟩, fun h => h.2⟩
  | cons g c ih =>
    have hih := ih (t := g.fill t) (n := n + g.sib.size + 1)
    rw [Frame.fill, root_branch] at hih
    rw [List.cons_append, CtxRep, hih, SegRep, top_append, plug, Frame.fill]
    constructor
    · rintro ⟨⟨k, -, hk⟩, hs, hseg, hc⟩
      exact ⟨⟨⟨k, hk⟩, hs, hseg⟩, hc.loose⟩
    · rintro ⟨⟨⟨k, hk⟩, hs, hseg⟩, hc⟩
      exact ⟨⟨k, by simp, hk⟩, hs, hseg, hc.loose⟩

/-- Opening a subtree at a position. -/
theorem treeRep_plug {q : Addr} : TreeRep m (some q) (plug c t) →
    SegRep m q c (root t) ∧ TreeRep m (some (top q c)) t := by
  induction c generalizing t with
  | nil => exact fun h => ⟨trivial, h⟩
  | cons f c ih =>
    intro h
    obtain ⟨hseg, ht⟩ := ih (t := f.fill t) h
    obtain ⟨hf, hn, hs⟩ := treeRep_branch.mp ht
    rw [Frame.fill, root_branch] at hseg
    exact ⟨⟨⟨_, hf⟩, hs, hseg⟩, hn⟩

theorem ctxAddrs_append (c₁ c₂ : Ctx (Item T)) :
    ctxAddrs (c₁ ++ c₂) = ctxAddrs c₁ ++ ctxAddrs c₂ := by
  induction c₁ with
  | nil => rfl
  | cons f c₁ ih => simp [ctxAddrs, ih]

theorem SegRep.congr (h : SegRep m q c hole) (hoff : ∀ a ∈ ctxAddrs c, m'.cell a = m.cell a) :
    SegRep m' q c hole := by
  induction c generalizing hole with
  | nil => trivial
  | cons f c ih =>
    obtain ⟨⟨k, hk⟩, hs, hc⟩ := h
    refine ⟨⟨k, (hoff _ (by simp [ctxAddrs])).trans hk⟩, hs.congr fun b hb => ?_,
      ih hc fun b hb => ?_⟩
    · exact hoff b (by simp [ctxAddrs, hb])
    · exact hoff b (by simp [ctxAddrs, hb])

/-- Overwriting the pointer into the hole. -/
theorem SegRep.setHole {f : Frame (Item T)} (h : SegRep m q (f :: c) hole)
    (hnd : (ctxAddrs (f :: c)).Nodup) (p : Ptr) :
    ∃ n, m.cell f.item.1 = some n ∧
      SegRep (m.update f.item.1 fun n => n.setChild f.dir p) q (f :: c) p := by
  obtain ⟨⟨k, hk⟩, hs, hc⟩ := h
  simp only [ctxAddrs, List.nodup_cons, List.mem_append, not_or] at hnd
  refine ⟨_, hk, ⟨k, by rw [ObjectHeap.cell_update_self hk, setChild_mkNode]⟩,
    hs.congr fun b hb => ObjectHeap.cell_update_ne ?_, hc.congr fun b hb => ObjectHeap.cell_update_ne ?_⟩
  · rintro rfl
    exact hnd.1.1 hb
  · rintro rfl
    exact hnd.1.2 hb

/-- Hanging the stretch below another node: its outermost node gets a new parent. -/
theorem SegRep.reseat {o : Addr} (h : SegRep m q c hole) (q' : Addr) (ho : root (plug c t) = some o)
    (hc : c ≠ []) (hnd : (ctxAddrs c).Nodup) :
    ∃ n, m.cell o = some n ∧
      SegRep (m.update o fun n => { n with parent := some q' }) q' c hole := by
  induction c generalizing t hole with
  | nil => exact absurd rfl hc
  | cons f c ih =>
    obtain ⟨⟨k, hk⟩, hs, hseg⟩ := h
    simp only [ctxAddrs, List.nodup_cons, List.mem_append, not_or] at hnd
    cases c with
    | nil =>
      obtain rfl : f.item.1 = o := by simpa [plug, Frame.fill] using ho
      refine ⟨_, hk, ⟨k, by rw [ObjectHeap.cell_update_self hk, setParent_mkNode, top_nil]⟩,
        hs.congr fun b hb => ObjectHeap.cell_update_ne ?_, trivial⟩
      rintro rfl
      exact hnd.1.1 hb
    | cons g c =>
      obtain ⟨n, hn, hsegs⟩ :=
        ih (t := f.fill t) hseg ho (by simp) (List.nodup_append.mp hnd.2).2.1
      obtain ⟨a, ha, hmem⟩ := ctxAddrs_root_mem g c
      obtain rfl : a = o := Option.some.inj ((ha _).symm.trans ho)
      refine ⟨n, hn, ⟨k, ?_⟩, hs.congr fun b hb => ObjectHeap.cell_update_ne ?_, hsegs⟩
      · rw [ObjectHeap.cell_update_ne (by rintro he; exact hnd.1.2 (he ▸ hmem)), hk]
        rfl
      · rintro rfl
        exact (List.nodup_append.mp hnd.2).2.2 _ hb _ hmem rfl

end HeapTree

namespace RankSet

variable (s : RankSet T)

/-- The successor leaves its place: its right subtree `x` moves up, and the rest
of `node_z`'s right subtree hangs below it. -/
theorem eraseNodeDetach_spec {zc : RBTreeNode T} {z : Addr} {y : Item T} {red : Bool} {l p : Ptr}
    {x : RBTree (Item T)} {k : Nat} (hzr : zc.right = root (plug c (.node red .nil y x)))
    (hspine : ∀ f ∈ c, f.dir = .left) (hp : p = some (top z c))
    (hy : m.cell y.1 = some (mkNode .left red p l (root x) k y.2))
    (hseg : SegRep m z c (some y.1)) (hx : TreeRep m (some y.1) x)
    (hnd : (y.1 :: (ctxAddrs c ++ addrs x)).Nodup) :
    ∃ m', eraseNodeDetach m zc y.1 (root x) = some (m', top y.1 c) ∧
      SegRep m' y.1 c (root x) ∧ TreeRep m' (some (top y.1 c)) x ∧
      m'.cell y.1 = some (mkNode .left red p l (root (plug c x)) k y.2) ∧
      ObjectHeap.Local (y.1 :: (ctxAddrs c ++ addrs x)) m m' := by
  cases c with
  | nil =>
    refine ⟨m, ?_, trivial, hx, hy, .refl _ _⟩
    simp [eraseNodeDetach, hzr, plug, root]
  | cons f c =>
    obtain ⟨o, ho, homem⟩ := ctxAddrs_root_mem f c
    obtain ⟨hynd, hnd₁⟩ := List.nodup_cons.mp hnd
    obtain ⟨hcnd, hxnd, hdisj⟩ := List.nodup_append.mp hnd₁
    simp only [List.mem_append, not_or] at hynd
    have hf : f.item.1 ∈ ctxAddrs (f :: c) := by simp [ctxAddrs]
    have hfy : y.1 ≠ f.item.1 := fun he => hynd.1 (he ▸ hf)
    have hoy : y.1 ≠ o := fun he => hynd.1 (he ▸ homem)
    -- x takes y's parent
    obtain ⟨m₁, e₁, hx₁, hl₁⟩ := setParentIf_spec hx hxnd f.item.1
    have hoff₁ : ∀ a ∈ ctxAddrs (f :: c), m₁.cell a = m.cell a := fun a ha =>
      hl₁.2 a fun hax => hdisj a ha a hax rfl
    -- y's parent points to x
    obtain ⟨nf, hnf, hseg₂⟩ := (hseg.congr hoff₁).setHole hcnd (root x)
    rw [hspine f (by simp)] at hseg₂
    have e₂ : m₁.setChild f.item.1 .left (root x) = _ := ObjectHeap.modify_eq hnf
    set m₂ : Memory T := m₁.update f.item.1 fun n => n.setChild .left (root x) with hm₂
    have hy₂ : m₂.cell y.1 = _ := (ObjectHeap.cell_update_ne hfy).trans ((hl₁.2 y.1 hynd.2).trans hy)
    -- y points to the right subtree of z
    have e₃ : m₂.setChild y.1 .right (some o) = _ := ObjectHeap.modify_eq hy₂
    set m₃ : Memory T := m₂.update y.1 fun n => n.setChild .right (some o) with hm₃
    have hseg₃ : SegRep m₃ z (f :: c) (root x) := hseg₂.congr fun a ha =>
      ObjectHeap.cell_update_ne (by rintro rfl; exact hynd.1 ha)
    -- and becomes its parent
    obtain ⟨no, hno, hseg₄⟩ := hseg₃.reseat y.1 (ho x) (by simp) hcnd
    have e₄ : m₃.setParent o (some y.1) = _ := ObjectHeap.modify_eq hno
    refine ⟨_, ?_, hseg₄, hx₁.congr fun a ha => ?_, ?_, ?_⟩
    · have hne : ¬ some o = some y.1 := fun he => hoy (Option.some.inj he).symm
      simp only [eraseNodeDetach, hzr, ho, ne_eq, hne, not_false_eq_true, if_true, hy,
        Option.bind_eq_bind, Option.bind_some, parent_mkNode, hp, top_cons, e₁, e₂, e₃, e₄]
    · have hafc : ∀ b ∈ ctxAddrs (f :: c), a ≠ b := fun b hb he => hdisj b hb a ha he.symm
      rw [ObjectHeap.cell_update_ne (hafc _ homem), ObjectHeap.cell_update_ne (by rintro rfl; exact hynd.2 ha),
        ObjectHeap.cell_update_ne (hafc _ hf)]
    · rw [ObjectHeap.cell_update_ne hoy, ObjectHeap.cell_update_self hy₂, ho]
      rfl
    · refine (((hl₁.mono ?_).trans (.update _ _ ?_)).trans (.update _ _ ?_)).trans (.update _ _ ?_)
      · intro a ha
        simp [ha]
      · simp [hf]
      · simp
      · simp [homem]

/-- A node with two children is taken out: its successor `y`, the end of the
left spine `c₁` of its right subtree, takes its place and its colour. -/
theorem eraseNodeRelink_spec {red yb : Bool} {z y : Item T} {l x : RBTree (Item T)}
    {c₁ : Ctx (Item T)} (hspine : ∀ f ∈ c₁, f.dir = .left) (hl : l ≠ .nil)
    (h : SetRep m s.header hn (plug c (.node red l z (plug c₁ (.node yb .nil y x))))) :
    ∃ m', s.eraseNodeRelink m z.1 y.1 (root x) =
        some (m', top s.header (c₁ ++ ⟨.right, red, y, l⟩ :: c)) ∧
      Unlinked m' s hn z.1 yb (c₁ ++ ⟨.right, red, y, l⟩ :: c) x ∧
      ObjectHeap.Local (s.header :: addrs (plug c (.node red l z (plug c₁ (.node yb .nil y x)))))
        m m' := by
  obtain ⟨hc, ⟨hz, hlz, hrz⟩, hnd⟩ := setRep_plug.mp h
  obtain ⟨hseg, hy, -, hx⟩ := treeRep_plug hrz
  obtain ⟨la, hla⟩ : ∃ la, root l = some la := by
    cases l with
    | nil => exact absurd rfl hl
    | node _ _ a _ => exact ⟨a.1, rfl⟩
  -- the addresses involved are pairwise distinct
  have hD : (z.1 :: y.1 :: s.header :: ((ctxAddrs c ++ addrs l) ++ (ctxAddrs c₁ ++ addrs x))).Nodup := by
    refine (List.Perm.nodup_iff (List.perm_iff_count.mpr fun a => ?_)).mp hnd
    have hr := (addrs_plug_perm c₁ (.node yb .nil y x)).count_eq a
    simp only [addrs_node, addrs_nil, List.nil_append, List.count_cons, List.count_append] at hr ⊢
    omega
  have hold : ∀ a, a ∈ z.1 :: y.1 :: s.header :: ((ctxAddrs c ++ addrs l) ++
      (ctxAddrs c₁ ++ addrs x)) → a ∈ s.header :: addrs (plug c (.node red l z
        (plug c₁ (.node yb .nil y x)))) := by
    intro a ha
    simp only [List.mem_cons, List.mem_append, mem_addrs_plug, addrs_node, addrs_nil,
      List.not_mem_nil, false_or] at ha ⊢
    tauto
  have hD' := hD
  simp only [List.nodup_cons, List.mem_cons, List.mem_append, not_or, List.nodup_append] at hD'
  obtain ⟨⟨hzy, hzh, ⟨hzc, hzl⟩, hzk, hzx⟩, ⟨hyh, ⟨hyc, hyl⟩, hyk, hyx⟩, ⟨⟨hhc, hhl⟩, hhk, hhx⟩,
    ⟨cnd, lnd, hcl⟩, ⟨knd, xnd, hkx⟩, hdisj⟩ := hD'
  set P := top s.header c with hP
  have hPmem : P ∈ s.header :: ctxAddrs c := top_mem ..
  obtain ⟨zc, hzcell, hzleft, hzright, hzpar, hzred⟩ : ∃ zc, m.cell z.1 = some zc ∧
      zc.left = some la ∧ zc.right = root (plug c₁ (.node yb .nil y x)) ∧ zc.parent = some P ∧
      zc.isRed = red := ⟨_, hz, hla, rfl, rfl, rfl⟩
  -- the rest of the path is untouched until the last steps
  have hfar : ∀ a ∈ s.header :: ctxAddrs c, a ≠ y.1 ∧ a ≠ z.1 ∧ a ∉ addrs l ∧
      a ∉ ctxAddrs c₁ ++ addrs x := by
    intro a ha
    rcases List.mem_cons.mp ha with rfl | ha
    · exact ⟨Ne.symm hyh, Ne.symm hzh, hhl, by simp [hhk, hhx]⟩
    · exact ⟨by rintro rfl; exact hyc ha, by rintro rfl; exact hzc ha,
        fun h' => hcl a ha a h' rfl, fun h' => hdisj a (.inl ha) a (List.mem_append.mp h') rfl⟩
  -- the left subtree below y
  obtain ⟨m₁, e₁, hl₁, hloc₁⟩ := setParentIf_spec hlz lnd y.1
  rw [hla] at e₁
  have hy₁ := (hloc₁.2 y.1 hyl).trans hy
  have e₂ : m₁.setChild y.1 .left (some la) = _ := ObjectHeap.modify_eq hy₁
  set m₂ : Memory T := m₁.update y.1 fun n => n.setChild .left (some la) with hm₂
  have hoff₂ : ∀ a, a ≠ y.1 → a ∉ addrs l → m₂.cell a = m.cell a := fun a hay hal =>
    (ObjectHeap.cell_update_ne hay).trans (hloc₁.2 a hal)
  have hy₂ : m₂.cell y.1 = some (mkNode .left yb (some (top z.1 c₁)) (some la) (root x)
      (0 + x.size + 1) y.2) := by
    rw [hm₂, ObjectHeap.cell_update_self hy₁]
    rfl
  -- y leaves its place
  obtain ⟨m₃, e₃, hseg₃, hx₃, hy₃, hloc₃⟩ := eraseNodeDetach_spec hzright hspine rfl hy₂
    (hseg.congr fun a ha => hoff₂ a (by rintro rfl; exact hyk ha)
      fun h' => hdisj a (.inr h') a (.inl ha) rfl)
    (hx.congr fun a ha => hoff₂ a (by rintro rfl; exact hyx ha)
      fun h' => hdisj a (.inr h') a (.inr ha) rfl)
    (List.nodup_cons.mpr ⟨by simp [hyk, hyx], List.nodup_append.mpr ⟨knd, xnd, hkx⟩⟩)
  have hoff₃ : ∀ a, a ≠ y.1 → a ∉ addrs l → a ∉ ctxAddrs c₁ ++ addrs x → m₃.cell a = m.cell a :=
    fun a hay hal hax => (hloc₃.2 a (by simpa [hay] using hax)).trans (hoff₂ a hay hal)
  have hz₃ := (hoff₃ z.1 hzy hzl (by simp [hzk, hzx])).trans hzcell
  have hpath : ∀ a ∈ s.header :: ctxAddrs c, m₃.cell a = m.cell a := fun a ha =>
    hoff₃ a (hfar a ha).1 (hfar a ha).2.2.1 (hfar a ha).2.2.2
  -- z's parent points to y, y takes z's parent
  have e₄ := replaceChild_eq s _ .left (some y.1) h rfl (hpath _ (by simp)) (hpath _ hPmem) hz₃ hzpar
  obtain ⟨hPy, hPz, hPl, hPx⟩ := hfar P hPmem
  set m₄ : Memory T := m₃.update P (setHole c (some y.1)) with hm₄
  have hy₄ := (ObjectHeap.cell_update_ne (f := setHole c (some y.1)) (Ne.symm hPy)).trans hy₃
  have e₅ : m₄.setParent y.1 (some P) = _ := ObjectHeap.modify_eq hy₄
  set m₅ : Memory T := m₄.update y.1 fun n => { n with parent := some P } with hm₅
  have hy₅ : m₅.cell y.1 = some (mkNode .left yb (some P) (some la) (root (plug c₁ x))
      (0 + x.size + 1) y.2) := by
    rw [hm₅, ObjectHeap.cell_update_self hy₄, setParent_mkNode]
  have hz₅ : m₅.cell z.1 = some zc := by
    rw [hm₅, ObjectHeap.cell_update_ne hzy, hm₄, ObjectHeap.cell_update_ne (Ne.symm hPz), hz₃]
  -- swap the colours
  have e₆ : m₅.setRed y.1 zc.isRed = _ := ObjectHeap.modify_eq hy₅
  set m₆ : Memory T := m₅.update y.1 fun n => { n with isRed := zc.isRed } with hm₆
  have hz₆ : m₆.cell z.1 = some zc := by rw [hm₆, ObjectHeap.cell_update_ne hzy, hz₅]
  have e₇ : m₆.setRed z.1 yb = _ := ObjectHeap.modify_eq hz₆
  set m₇ : Memory T := m₆.update z.1 fun n => { n with isRed := yb } with hm₇
  have hoff₇ : ∀ a, a ≠ y.1 → a ≠ z.1 → a ≠ P → m₇.cell a = m₃.cell a := fun a hay haz haP => by
    rw [hm₇, ObjectHeap.cell_update_ne haz, hm₆, ObjectHeap.cell_update_ne hay, hm₅,
      ObjectHeap.cell_update_ne hay, hm₄, ObjectHeap.cell_update_ne haP]
  have hy₇ : m₇.cell y.1 = some (mkNode .right red (some P) (root (plug c₁ x)) (root l)
      (0 + x.size + 1) y.2) := by
    rw [hm₇, ObjectHeap.cell_update_ne (Ne.symm hzy), hm₆, ObjectHeap.cell_update_self hy₅, hzred, hla]
    rfl
  have hc₇ : CtxRep m₇ s.header hn false c (some y.1) 0 := by
    have hc₃ : CtxRep m₃ s.header hn true c (some z.1) _ :=
      hc.congr (hpath _ (by simp)) fun a ha => hpath a (by simp [ha])
    have hnd₃ : (s.header :: ctxAddrs c).Nodup := List.nodup_cons.mpr ⟨hhc, cnd⟩
    have hoff₄ : ∀ a ∈ s.header :: ctxAddrs c, m₇.cell a = m₄.cell a := fun a ha => by
      obtain ⟨hay, haz, -⟩ := hfar a ha
      rw [hm₇, ObjectHeap.cell_update_ne haz, hm₆, ObjectHeap.cell_update_ne hay, hm₅,
        ObjectHeap.cell_update_ne hay]
    exact ((hc₃.setHole hnd₃ (some y.1)).congr (hoff₄ _ (by simp))
      fun a ha => hoff₄ a (by simp [ha])).loose
  refine ⟨m₇, ?_, ⟨?_, ?_, ?_, _, ObjectHeap.cell_update_self hz₆, rfl⟩, ?_⟩
  · rw [top_append]
    have e₁' : m.setParent la (some y.1) = some m₁ := e₁
    simp only [eraseNodeRelink, hzcell, hzleft, Option.bind_eq_bind, Option.bind_some, e₁', e₂, e₃,
      e₄, hzpar, e₅, hy₅, hz₅, isRed_mkNode, e₆, e₇]
  · refine ctxRep_append.mpr ⟨hseg₃.congr fun a ha => hoff₇ a ?_ ?_ ?_,
      ⟨_, by simp, hy₇⟩, hl₁.congr fun a ha => ?_, hc₇.loose⟩
    · rintro rfl; exact hyk ha
    · rintro rfl; exact hzk ha
    · rintro rfl; exact hPx (List.mem_append_left _ ha)
    · have hay : a ≠ y.1 := by rintro rfl; exact hyl ha
      rw [hoff₇ a hay (by rintro rfl; exact hzl ha) (by rintro rfl; exact hPl ha), hloc₃.2 a ?_, hm₂,
        ObjectHeap.cell_update_ne hay]
      simp only [List.mem_cons, hay, false_or]
      exact fun h' => hdisj a (.inr ha) a (List.mem_append.mp h') rfl
  · rw [top_append]
    refine hx₃.congr fun a ha => hoff₇ a ?_ ?_ ?_
    · rintro rfl; exact hyx ha
    · rintro rfl; exact hzx ha
    · rintro rfl; exact hPx (List.mem_append_right _ ha)
  · refine (List.Perm.nodup_iff (List.perm_iff_count.mpr fun a => ?_)).mp hD
    simp only [ctxAddrs_append, ctxAddrs, List.count_cons, List.count_append]
    omega
  · have hmem : ∀ {a}, a ∈ s.header :: ctxAddrs c → a ∈ s.header :: addrs (plug c (.node red l z
        (plug c₁ (.node yb .nil y x)))) := fun {a} ha => hold a (by
      simp only [List.mem_cons, List.mem_append] at ha ⊢
      tauto)
    refine ((((((hloc₁.mono ?_).trans (.update _ _ ?_)).trans (hloc₃.mono ?_)).trans
      (.update _ _ (hmem hPmem))).trans (.update _ _ ?_)).trans (.update _ _ ?_)).trans
      (.update _ _ ?_)
    · exact fun a ha => hold a (by simp [ha])
    · exact hold y.1 (by simp)
    · exact fun a ha => hold a (by simp only [List.mem_cons, List.mem_append] at ha ⊢; tauto)
    · exact hold y.1 (by simp)
    · exact hold y.1 (by simp)
    · exact hold z.1 (by simp)

/-! ## The whole operation -/

variable {v : T} {L R : List (Item T)} {z : Item T}

/-- Freeing a node that is not in the set. -/
theorem free_spec {a : Addr} (h : SetRep m s.header hn t) (ha : a ∉ s.header :: addrs t)
    {n : RBTreeNode T} (hn' : m.cell a = some n) :
    ∃ m', m.free a = some m' ∧ SetRep m' s.header hn t ∧ ObjectHeap.Local [a] m m' := by
  have hoff : ∀ b, b ≠ a → (m.remove a).cell b = m.cell b := fun b hb => if_neg hb
  refine ⟨m.remove a, ?_, ⟨?_, h.tree.congr fun b hb => hoff b ?_, h.nodup⟩, rfl,
    fun b hb => hoff b (by simpa using hb)⟩
  · rw [ObjectHeap.free, hn']
    rfl
  · exact (hoff _ (by rintro rfl; exact ha (by simp))).trans h.headerCell
  · rintro rfl
    exact ha (by simp [hb])

/-- Counting, rebalancing and freeing after the node has been unlinked. -/
theorem eraseNodeFinish_spec {red : Bool} {x : RBTree (Item T)}
    (hu : Unlinked m s (s.shrunkHeader v t L R) z.1 red c x) (hs : t.toList = L ++ z :: R)
    (hx : (plug c x).toList = L ++ R) (hnext : t.size < m.next)
    (hred : red = true → IsRB (plug c x)) (hblack : red = false → EraseInv c x) :
    ∃ m' t', s.eraseNodeFinish m z.1 (root x) (top s.header c) = some m' ∧ SetInv m' s v t' ∧
      t'.toList = L ++ R ∧ ObjectHeap.Local (s.header :: addrs t) m m' := by
  obtain ⟨hznd, hnd⟩ := List.nodup_cons.mp hu.nodup
  have hsize : (plug c x).size + 1 = t.size := by
    rw [← RBTree.toList_length, hx, ← RBTree.toList_length, hs]
    simp
    omega
  have hlen : c.length < m.fuel := by
    have h₁ := length_le_size_plug c x
    rw [Memory.fuel]
    omega
  have haddrs : ∀ a, a ∈ z.1 :: s.header :: (ctxAddrs c ++ addrs x) → a ∈ s.header :: addrs t := by
    have hperm : (addrs t).Perm (z.1 :: addrs (plug c x)) := by
      rw [addrs, addrs, hs, hx]
      simp
    intro a ha
    simp only [List.mem_cons, hperm.mem_iff, mem_addrs_plug, List.mem_append] at ha ⊢
    tauto
  obtain ⟨m₁, e₁, h₁, hl₁⟩ := updateNodeCountToTop_spec s hu.ctx hu.tree hnd hlen
  obtain ⟨zc, hz, hzred⟩ := hu.cell
  have hz₁ : m₁.cell z.1 = some zc := (hl₁.2 z.1 fun hm => hznd (by simp [hm])).trans hz
  -- rebalance
  obtain ⟨m₂, t₂, e₂, hrb, h₂⟩ : ∃ m₂ t₂,
      s.eraseNodeRebalance m₁ z.1 (root x) (top s.header c) = some m₂ ∧ IsRB t₂ ∧
      Rearranged m₁ m₂ s.header (s.shrunkHeader v t L R) (plug c x) t₂ := by
    cases red with
    | true => exact ⟨m₁, _, by simp [eraseNodeRebalance, hz₁, hzred], hred rfl, .refl h₁⟩
    | false =>
      obtain ⟨m₂, t₂, e₂, hrb, h₂⟩ := s.eraseNodeFixup_spec h₁ (hblack rfl)
      exact ⟨m₂, t₂, by simp [eraseNodeRebalance, hz₁, hzred, e₂], hrb, h₂⟩
  have hlist : t₂.toList = L ++ R := h₂.toList.trans hx
  have hzt : z.1 ∉ s.header :: addrs t₂ := by
    rw [addrs_eq_of_toList h₂.toList]
    simp only [List.mem_cons, mem_addrs_plug]
    simp only [List.mem_cons, List.mem_append] at hznd
    exact hznd
  have hz₂ : m₂.cell z.1 = some zc := by
    rw [h₂.written.2 z.1 (addrs_eq_of_toList h₂.toList ▸ hzt), hz₁]
  -- count the set's elements
  have h₃ := h₂.rep.updateHeader (f := fun n => { n with nodeCount := n.nodeCount - 1 })
    (headerOf s.header v t₂) fun p => by
      have hcount : t.size - 1 = t₂.size := by
        rw [← RBTree.toList_length t₂, hlist, ← hx, RBTree.toList_length]
        omega
      simp [shrunkHeader, headerOf, RBTree.seq, hlist, hcount]
  have e₃ := ObjectHeap.modify_eq (f := fun n => { n with nodeCount := n.nodeCount - 1 })
    h₂.rep.headerCell
  have hz₃ := (ObjectHeap.cell_update_ne (f := fun n => { n with nodeCount := n.nodeCount - 1 })
    (fun he => hzt (List.mem_cons.mpr (.inl he)))).trans hz₂
  obtain ⟨m₄, e₄, h₄, hl₄⟩ := s.free_spec h₃ hzt hz₃
  refine ⟨m₄, t₂, ?_, ⟨h₄, hrb⟩, hlist, ?_⟩
  · simp only [eraseNodeFinish, e₁, Option.bind_eq_bind, Option.bind_some, e₂, e₃]
    exact e₄
  · refine (((hl₁.mono ?_).trans (h₂.written.mono ?_)).trans (.update _ _ (by simp))).trans
      (hl₄.mono ?_)
    · exact fun a ha => haddrs a (by simp [ha])
    · intro a ha
      refine haddrs a ?_
      simp only [List.mem_cons, mem_addrs_plug, List.mem_append] at ha ⊢
      tauto
    · exact fun a ha => haddrs a (by simp only [List.mem_singleton] at ha; simp [ha])

/-- **`eraseNode`** takes the node out of the sequence. -/
theorem eraseNode_spec (h : SetInv m s v t) (hs : t.toList = L ++ z :: R) :
    ∃ m' t', s.eraseNode m z.1 = some m' ∧ SetInv m' s v t' ∧ t'.toList = L ++ R ∧
      ObjectHeap.Local (s.header :: addrs t) m m' := by
  obtain ⟨m₁, e₁, h₁, hl₁⟩ := s.eraseNodeMinMax_spec h hs
  have hl₁' : ObjectHeap.Local (s.header :: addrs t) m m₁ := hl₁.mono fun a ha => by simp_all
  have hrb := h.isRB
  obtain ⟨c, red, l, r, rfl, hL, hR⟩ := exists_plug_of_split hs
  have hz := h₁.cell (d := .left)
  -- finishing after the node is unlinked from a context `c'` with focus `x`
  have hfin : ∀ {c' x m₂ yb}, Unlinked m₂ s (s.shrunkHeader v (plug c (.node red l z r)) L R)
        z.1 yb c' x → ObjectHeap.Local (s.header :: addrs (plug c (.node red l z r))) m₁ m₂ →
      (plug c' x).toList = L ++ R → (yb = true → IsRB (plug c' x)) →
      (yb = false → EraseInv c' x) →
      ∃ m' t', s.eraseNodeFinish m₂ z.1 (root x) (top s.header c') = some m' ∧ SetInv m' s v t' ∧
        t'.toList = L ++ R ∧
        ObjectHeap.Local (s.header :: addrs (plug c (.node red l z r))) m m' := by
    intro c' x m₂ yb hu hl₂ hx hred hblack
    have hnext : (plug c (.node red l z r)).size < m₂.next := by
      rw [hl₂.1]
      exact h₁.size_lt_next
    obtain ⟨m', t', e', h', hlist, hl'⟩ := s.eraseNodeFinish_spec hu hs hx hnext hred hblack
    exact ⟨m', t', e', h', hlist, (hl₁'.trans hl₂).trans hl'⟩
  by_cases hl : l = .nil
  · subst hl
    have h₁' : SetRep m₁ s.header _ (plug c (.branch .left red z .nil r)) := h₁
    obtain ⟨m₂, e₂, hu, hl₂⟩ := s.eraseNodeSplice_spec h₁'
    have hx : (plug c r).toList = L ++ R := by
      rw [toList_plug, ← hL, ← hR]
      simp [RBTree.toList]
    obtain ⟨m', t', e', hres⟩ := hfin hu hl₂ hx
      (by rintro rfl; exact EraseInv.isRB_of_red (d := .left) hrb)
      (by rintro rfl; exact EraseInv.of_isRB (d := .left) hrb)
    refine ⟨m', t', ?_, hres⟩
    simp only [eraseNode, e₁, hz, Option.bind_eq_bind, Option.bind_some, mkNode, root_nil, e₂, e']
  obtain ⟨la, hla⟩ : ∃ la, root l = some la := by
    cases l with
    | nil => exact absurd rfl hl
    | node _ _ a _ => exact ⟨a.1, rfl⟩
  by_cases hr : r = .nil
  · subst hr
    have h₁' : SetRep m₁ s.header _ (plug c (.branch .right red z .nil l)) := h₁
    obtain ⟨m₂, e₂, hu, hl₂⟩ := s.eraseNodeSplice_spec h₁'
    have hx : (plug c l).toList = L ++ R := by
      rw [toList_plug, ← hL, ← hR]
      simp [RBTree.toList]
    obtain ⟨m', t', e', hres⟩ := hfin hu hl₂ hx
      (by rintro rfl; exact EraseInv.isRB_of_red (d := .right) hrb)
      (by rintro rfl; exact EraseInv.of_isRB (d := .right) hrb)
    refine ⟨m', t', ?_, hres⟩
    rw [hla] at e₂ e'
    simp only [eraseNode, e₁, hz, Option.bind_eq_bind, Option.bind_some, mkNode, root_nil, hla, e₂,
      e']
  · obtain ⟨c₁, yb, y, x, rfl, hspine⟩ := exists_spine .left r hr
    obtain ⟨m₂, e₂, hu, hl₂⟩ := s.eraseNodeRelink_spec hspine hl h₁
    have hbefore : before c₁ = [] := by
      simpa [beyond_left] using beyond_spine hspine
    have hx : (plug (c₁ ++ ⟨.right, red, y, l⟩ :: c) x).toList = L ++ R := by
      rw [toList_plug, before_append, after_append, ← hL, ← hR, toList_plug, hbefore]
      simp [before, after, RBTree.branch, RBTree.toList]
    -- the successor takes over z's place in the shape
    have hrb' : IsRB (plug (c₁ ++ ⟨.right, red, y, l⟩ :: c) (.branch .left yb y .nil x)) :=
      IsRB.rename (a := z) y (by rw [plug_append]; exact hrb)
    obtain ⟨m', t', e', hres⟩ := hfin hu hl₂ hx (by rintro rfl; exact EraseInv.isRB_of_red hrb')
      (by rintro rfl; exact EraseInv.of_isRB hrb')
    refine ⟨m', t', ?_, hres⟩
    -- the successor is where the descent ends
    have hright := (setRep_plug.mp h₁).2.1.2.2
    obtain ⟨ra, hra⟩ : ∃ ra, root (plug c₁ (.branch .left yb y .nil x)) = some ra := by
      cases hp : plug c₁ (.branch .left yb y .nil x) with
      | nil => exact absurd hp hr
      | node _ _ a _ => exact ⟨a.1, rfl⟩
    have hdesc : m₁.descend .left m₁.fuel ra = some y.1 := by
      have hfuel := h₁.size_lt_fuel
      rw [size_plug, RBTree.size] at hfuel
      rw [Memory.descend_spec .left s.header hright hra (by omega), seq_plug,
        beyond_spine hspine]
      simp
    have hy := (treeRep_plug hright).2.1
    simp only [eraseNode, e₁, hz, Option.bind_eq_bind, Option.bind_some, mkNode, hla, hra, hdesc, hy,
      e₂, e']

end RankSet

end Brickred
