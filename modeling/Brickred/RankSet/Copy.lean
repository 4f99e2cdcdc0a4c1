import Brickred.RankSet.Query

/-!
# Construction, copying and destruction

`copyNodes` clones a heap tree node by node into fresh memory; the clone has the
same shape, colours, counts and values (`RBTree.map Prod.snd`). `clearNode` frees
a heap tree and touches nothing else.
-/

namespace Brickred

open RedBlack HeapTree ObjectHeap

variable {T : Type} {m : Memory T} {t : RBTree (Item T)} {p : Ptr}

namespace Memory

/-- `clearNode` frees exactly the nodes of the tree. -/
theorem clearNode_spec : ∀ {t : RBTree (Item T)} {m : Memory T} {p : Ptr} {fuel : Nat},
    TreeRep m p t → (addrs t).Nodup → t.size < fuel →
    ∃ m', clearNode fuel m (root t) = some m' ∧ Local (addrs t) m m'
  | .nil, m, _, fuel + 1, _, _, _ => ⟨m, rfl, .refl _ _⟩
  | .node red l x r, m, _, fuel + 1, ⟨hx, hl, hr⟩, hnd, hfuel => by
    simp only [RBTree.size] at hfuel
    rw [addrs_node] at hnd
    obtain ⟨hlnd, hrnd, hdisj⟩ := List.nodup_append.mp hnd
    obtain ⟨hxr, hrnd⟩ := List.nodup_cons.mp hrnd
    obtain ⟨m₁, e₁, hl₁⟩ := clearNode_spec hl hlnd (show l.size < fuel by omega)
    have hr₁ : TreeRep m₁ (some x.1) r := hr.congr fun a ha =>
      hl₁.2 a fun hal => hdisj a hal a (by simp [ha]) rfl
    obtain ⟨m₂, e₂, hl₂⟩ := clearNode_spec hr₁ hrnd (show r.size < fuel by omega)
    have hx₂ : m₂.cell x.1 = _ := (hl₂.2 x.1 hxr).trans
      ((hl₁.2 x.1 fun hal => hdisj x.1 hal x.1 (by simp) rfl).trans hx)
    refine ⟨m₂.remove x.1, ?_, ((hl₁.mono ?_).trans (hl₂.mono ?_)).trans ⟨rfl, ?_⟩⟩
    · simp only [root_node, clearNode, hx, Option.bind_eq_bind, Option.bind_some, e₁, e₂, free, hx₂]
      rfl
    · exact fun a ha => by simp [ha]
    · exact fun a ha => by simp [ha]
    · intro a ha
      exact if_neg (by rintro rfl; simp at ha)

/-- `copyNodes` builds a clone out of fresh nodes; its root has no parent yet. -/
theorem copyNodes_spec : ∀ {t : RBTree (Item T)} {m : Memory T} {p : Ptr} {fuel : Nat},
    TreeRep m p t → t.size < fuel →
    ∃ m' t', copyNodes fuel m (root t) = some (m', root t') ∧ TreeRep m' none t' ∧
      t'.map Prod.snd = t.map Prod.snd ∧ (addrs t').Nodup ∧ (∀ a ∈ addrs t', m.next ≤ a) ∧
      Outside [] m m'
  | .nil, m, _, fuel + 1, _, _ =>
    ⟨m, .nil, rfl, trivial, rfl, List.nodup_nil, by simp, Nat.le_refl _, fun _ _ _ => rfl⟩
  | .node red l x r, m, p, fuel + 1, ⟨hx, hl, hr⟩, hfuel => by
    simp only [RBTree.size] at hfuel
    have hold : ∀ {q u}, TreeRep m q u → ∀ b ∈ addrs u, b < m.next := fun hu b hb => by
      obtain ⟨n, hn⟩ := hu.cell_ne_none b hb
      exact lt_next hn
    -- the new node
    obtain ⟨n₀, hn₀⟩ : ∃ n₀ : RBTreeNode T, n₀ = ⟨red, none, none, none, l.size + r.size + 1, x.2⟩ :=
      ⟨_, rfl⟩
    set m₁ := (m.alloc n₀).1 with hm₁
    have ho₁ : Outside [] m m₁ := outside_alloc [] m n₀
    have ha₁ : m₁.cell m.next = some n₀ := cell_alloc_next n₀
    -- the left subtree
    obtain ⟨m₂, l', e₂, hl₂, hml, hlnd, hlf, ho₂⟩ := copyNodes_spec
      (hl.congr fun b hb => ho₁.2 b (hold hl b hb) (by simp)) (show l.size < fuel by omega)
    have ha₂ := (ho₂.2 m.next (Nat.lt_succ_self _) (by simp)).trans ha₁
    set m₃ : Memory T := m₂.update m.next fun n => n.setChild .left (root l') with hm₃
    have ha₃ : m₃.cell m.next = some { n₀ with left := root l' } := cell_update_self ha₂
    have ho₃ : Outside [] m m₃ := (ho₁.trans ho₂ (by simp)).trans
      ((Local.update _ _ (by simp)).outside (S := [m.next])) fun b hb hlt => by
        rw [List.mem_singleton.mp hb] at hlt
        exact absurd hlt (Nat.lt_irrefl _)
    -- the right subtree
    obtain ⟨m₄, r', e₄, hr₄, hmr, hrnd, hrf, ho₄⟩ := copyNodes_spec
      (hr.congr fun b hb => ho₃.2 b (hold hr b hb) (by simp)) (show r.size < fuel by omega)
    have hlt₂ : ∀ b ∈ addrs l', b < m₂.next := fun b hb => by
      obtain ⟨n, hn⟩ := hl₂.cell_ne_none b hb
      exact lt_next hn
    have hanext : m.next < m₂.next := Nat.lt_of_succ_le ho₂.1
    have hla : ∀ b ∈ addrs l', b ≠ m.next := fun b hb => Nat.ne_of_gt (hlf b hb)
    have hra : ∀ b ∈ addrs r', b ≠ m.next := fun b hb =>
      Nat.ne_of_gt (Nat.lt_of_lt_of_le hanext (hrf b hb))
    have hlr : ∀ b ∈ addrs r', b ∉ addrs l' := fun b hb hbl =>
      Nat.lt_irrefl _ (Nat.lt_of_lt_of_le (hlt₂ b hbl) (hrf b hb))
    have ha₄ := (ho₄.2 m.next hanext (by simp)).trans ha₃
    set m₅ : Memory T := m₄.update m.next fun n => n.setChild .right (root r') with hm₅
    -- both subtrees below the new node
    have hl₅ : TreeRep m₅ none l' := hl₂.congr fun b hb => by
      rw [hm₅, cell_update_ne (hla b hb), ho₄.2 b (hlt₂ b hb) (by simp), hm₃,
        cell_update_ne (hla b hb)]
    obtain ⟨m₆, e₆, hl₆, hloc₆⟩ := setParentIf_spec hl₅ hlnd m.next
    have hr₆ : TreeRep m₆ none r' := hr₄.congr fun b hb => by
      rw [hloc₆.2 b (hlr b hb), hm₅, cell_update_ne (hra b hb)]
    obtain ⟨m₇, e₇, hr₇, hloc₇⟩ := setParentIf_spec hr₆ hrnd m.next
    have ha₇ : m₇.cell m.next = some ⟨red, none, root l', root r', l.size + r.size + 1, x.2⟩ := by
      rw [hloc₇.2 _ fun h => hra _ h rfl, hloc₆.2 _ fun h => hla _ h rfl, hm₅,
        cell_update_self ha₄, hn₀]
      rfl
    have hls : l'.size = l.size := by rw [← RBTree.size_map Prod.snd, hml, RBTree.size_map]
    have hrs : r'.size = r.size := by rw [← RBTree.size_map Prod.snd, hmr, RBTree.size_map]
    refine ⟨m₇, .node red l' (m.next, x.2) r', ?_, ⟨?_, ?_, hr₇⟩, ?_, ?_, ?_, ?_⟩
    · have e₃ : m₂.setChild m.next .left (root l') = some m₃ := modify_eq ha₂
      have e₅ : m₄.setChild m.next .right (root r') = some m₅ := modify_eq ha₄
      have e₁ : m.alloc ⟨red, none, none, none, l.size + r.size + 1, x.2⟩ = (m₁, m.next) := by
        rw [hm₁, hn₀]
        rfl
      simp only [root_node, copyNodes, hx, Option.bind_eq_bind, Option.bind_some, e₁, e₂, e₃, e₄, e₅,
        e₆, e₇]
    · rw [ha₇, hls, hrs]
    · exact hl₆.congr fun b hb => hloc₇.2 b fun h => hlr b h hb
    · rw [RBTree.map, RBTree.map, hml, hmr]
    · rw [addrs_node]
      refine List.nodup_append.mpr ⟨hlnd, List.nodup_cons.mpr ⟨fun h => hra _ h rfl, hrnd⟩, ?_⟩
      rintro b hb d hd rfl
      rcases List.mem_cons.mp hd with rfl | hd
      · exact hla _ hb rfl
      · exact hlr _ hd hb
    · intro b hb
      simp only [addrs_node, List.mem_append, List.mem_cons] at hb
      rcases hb with hb | rfl | hb
      · exact Nat.le_of_succ_le (hlf b hb)
      · exact Nat.le_refl _
      · exact Nat.le_of_lt (Nat.lt_of_lt_of_le hanext (hrf b hb))
    · have hfresh : ∀ b ∈ m.next :: (addrs l' ++ addrs r'), b < m.next → b ∈ ([] : List Addr) := by
        intro b hb hlt
        simp only [List.mem_cons, List.mem_append] at hb
        rcases hb with rfl | hb | hb
        · exact absurd hlt (Nat.lt_irrefl _)
        · exact absurd (hlf b hb) (Nat.not_le_of_gt (Nat.lt_succ_of_lt hlt))
        · exact absurd (Nat.lt_of_lt_of_le hanext (hrf b hb)) (Nat.lt_asymm hlt)
      have hl₇ : Local (m.next :: (addrs l' ++ addrs r')) m₄ m₇ :=
        ((Local.update m₄ _ (by simp)).trans (hloc₆.mono fun b hb => by simp [hb])).trans
          (hloc₇.mono fun b hb => by simp [hb])
      exact (ho₃.trans ho₄ (by simp)).trans hl₇.outside hfresh

end Memory

namespace RankSet

variable {s : RankSet T} {v : T}

/-! ## Emptying -/

theorem clear_spec (h : SetInv m s v t) :
    ∃ m', s.clear m = some m' ∧ SetInv m' s v .nil ∧ ObjectHeap.Local (s.header :: addrs t) m m' := by
  have hh := h.cell_header
  obtain ⟨hhead, hnd⟩ := List.nodup_cons.mp h.rep.nodup
  obtain ⟨m₁, e₁, hl₁⟩ := Memory.clearNode_spec h.rep.tree hnd h.rep.size_lt_fuel
  have hh₁ := (hl₁.2 _ hhead).trans hh
  obtain ⟨m₂, e₂, hh₂, hl₂⟩ : ∃ m₂, s.resetHeaderNode m₁ = some m₂ ∧
      m₂.cell s.header = some (headerOf s.header v .nil) ∧ ObjectHeap.Local [s.header] m₁ m₂ :=
    ⟨_, ObjectHeap.modify_eq hh₁, (ObjectHeap.cell_update_self hh₁).trans rfl, .update _ _ (by simp)⟩
  refine ⟨m₂, ?_, ⟨⟨hh₂, trivial, by simp⟩, isRB_nil⟩,
    (hl₁.mono fun a ha => List.mem_cons_of_mem _ ha).trans (hl₂.mono ?_)⟩
  · simp only [clear, hh, Option.bind_eq_bind, Option.bind_some, headerOf, e₁]
    exact e₂
  · intro a ha
    simp [List.mem_singleton.mp ha]

theorem destruct_spec (h : SetInv m s v t) :
    ∃ m', s.destruct m = some m' ∧ ObjectHeap.Local (s.header :: addrs t) m m' := by
  obtain ⟨m₁, e₁, h₁, hl₁⟩ := clear_spec h
  refine ⟨m₁.remove s.header, ?_, hl₁.trans ⟨rfl, fun a ha => if_neg ?_⟩⟩
  · simp only [destruct, e₁, Option.bind_eq_bind, Option.bind_some, ObjectHeap.free, h₁.cell_header]
    rfl
  · rintro rfl
    exact ha (by simp)

/-! ## Building -/

variable [Inhabited T]

/-- A fresh header: the empty set. -/
theorem resetHeaderNode_spec (m : Memory T) (lt : T → T → Bool) :
    ∃ m', (⟨m.next, lt⟩ : RankSet T).resetHeaderNode (m.alloc headerNode).1 = some m' ∧
      SetInv m' ⟨m.next, lt⟩ default .nil ∧ ObjectHeap.Outside [] m m' := by
  have hh : (m.alloc headerNode).1.cell m.next = _ := ObjectHeap.cell_alloc_next headerNode
  refine ⟨_, ObjectHeap.modify_eq hh, ⟨⟨(ObjectHeap.cell_update_self hh).trans rfl, trivial, by simp⟩,
    isRB_nil⟩, ?_⟩
  refine (ObjectHeap.outside_alloc [] m headerNode).trans
    ((ObjectHeap.Local.update _ _ (by simp)).outside (S := [m.next])) fun a ha hlt => ?_
  rw [List.mem_singleton.mp ha] at hlt
  exact absurd hlt (Nat.lt_irrefl _)

theorem construct_spec (m : Memory T) (lt : T → T → Bool) :
    ∃ m', construct lt m = some (m', ⟨m.next, lt⟩) ∧ SetInv m' ⟨m.next, lt⟩ default .nil ∧
      ObjectHeap.Outside [] m m' := by
  obtain ⟨m₁, e₁, h₁, ho₁⟩ := resetHeaderNode_spec m lt
  refine ⟨m₁, ?_, h₁, ho₁⟩
  simp only [construct, ObjectHeap.alloc] at e₁ ⊢
  rw [e₁]
  rfl

/-- `RankSet(RankSet &&other)`: the tree changes hands, and `other` is left empty. -/
theorem moveConstruct_spec (m : Memory T) (other : RankSet T) :
    ∃ m', moveConstruct m other = some (m', other, ⟨m.next, other.compareFunc⟩) ∧
      SetInv m' ⟨m.next, other.compareFunc⟩ default .nil ∧ ObjectHeap.Outside [] m m' := by
  obtain ⟨m₁, e₁, h₁, ho₁⟩ := resetHeaderNode_spec m other.compareFunc
  refine ⟨m₁, ?_, h₁, ho₁⟩
  simp only [moveConstruct, ObjectHeap.alloc] at e₁ ⊢
  rw [e₁]
  rfl

/-- `RankSet(const RankSet &other)`: a new set of new nodes with the same values. -/
theorem copyConstruct_spec (h : SetInv m s v t) :
    ∃ m' t', copyConstruct m s = some (m', ⟨m.next, s.compareFunc⟩) ∧
      SetInv m' ⟨m.next, s.compareFunc⟩ default t' ∧ values t' = values t ∧
      (∀ a ∈ addrs t', m.next < a) ∧ ObjectHeap.Outside [] m m' := by
  obtain ⟨m₁, e₁, h₁, ho₁⟩ := resetHeaderNode_spec m s.compareFunc
  have hold : ∀ a ∈ s.header :: addrs t, a < m.next := fun a ha => by
    obtain ⟨n, hn⟩ := h.rep.cell_ne_none a ha
    exact ObjectHeap.lt_next hn
  -- the source is as it was
  have ht₁ : TreeRep m₁ (some s.header) t := h.rep.tree.congr fun a ha =>
    ho₁.2 a (hold a (by simp [ha])) (by simp)
  have hs₁ := (ho₁.2 s.header (hold _ (by simp)) (by simp)).trans h.cell_header
  have hfuel : t.size < m₁.fuel :=
    Nat.lt_of_lt_of_le h.rep.size_lt_fuel (Nat.succ_le_succ ho₁.1)
  -- copy nodes
  obtain ⟨m₂, t', e₂, ht₂, hmap, hnd, hfresh, ho₂⟩ := Memory.copyNodes_spec ht₁ hfuel
  have hs₂ := (ho₂.2 s.header (Nat.lt_of_lt_of_le (hold _ (by simp)) ho₁.1) (by simp)).trans hs₁
  have hnext : m.next < m₁.next := ObjectHeap.lt_next h₁.cell_header
  have hh₂ := (ho₂.2 m.next hnext (by simp)).trans h₁.cell_header
  have hne : ∀ a ∈ addrs t', m.next < a := fun a ha => Nat.lt_of_lt_of_le hnext (hfresh a ha)
  have hoff : m.next ∉ addrs t' := fun h => Nat.lt_irrefl _ (hne _ h)
  -- link the clone below the new header
  have e₃ : m₂.setParent m.next (root t') = _ := ObjectHeap.modify_eq hh₂
  set m₃ : Memory T := m₂.update m.next fun n => { n with parent := root t' } with hm₃
  have ht₃ : TreeRep m₃ none t' := ht₂.congr fun a ha => ObjectHeap.cell_update_ne (by
    rintro rfl
    exact hoff ha)
  obtain ⟨m₄, e₄, ht₄, hl₄⟩ := setParentIf_spec ht₃ hnd m.next
  have hold' : ∀ a ∈ addrs t', s.header ≠ a := fun a ha he =>
    Nat.lt_asymm (hold _ (by simp)) (he ▸ hne a ha)
  have hs₄ : m₄.cell s.header = some (headerOf s.header v t) := by
    rw [hl₄.2 _ fun h => hold' _ h rfl, hm₃,
      ObjectHeap.cell_update_ne (Nat.ne_of_lt (hold _ (by simp))), hs₂]
  have hh₄ : m₄.cell m.next = some ⟨true, root t', some m.next, some m.next, 0, default⟩ := by
    rw [hl₄.2 _ hoff, hm₃, ObjectHeap.cell_update_self hh₂]
    rfl
  have e₅ : m₄.setCount m.next t.size = _ := ObjectHeap.modify_eq hh₄
  set m₅ : Memory T := m₄.update m.next fun n => { n with nodeCount := t.size } with hm₅
  have hh₅ : m₅.cell m.next = some ⟨true, root t', some m.next, some m.next, t.size, default⟩ := by
    rw [hm₅, ObjectHeap.cell_update_self hh₄]
  -- the extremes
  have hsize : t'.size = t.size := by rw [← RBTree.size_map Prod.snd, hmap, RBTree.size_map]
  have hchild : ∀ {m' : Memory T} {n} (d : Dir) (q : Addr), m'.cell m.next = some n →
      TreeRep m' (some m.next) t' →
      ∃ m'', m'.setChild m.next d (some q) = some m'' ∧
        m''.cell m.next = some (n.setChild d (some q)) ∧ TreeRep m'' (some m.next) t' ∧
        ObjectHeap.Local [m.next] m' m'' := fun {m' n} d q hn ht =>
    ⟨_, ObjectHeap.modify_eq hn, ObjectHeap.cell_update_self hn,
      ht.congr fun a ha => ObjectHeap.cell_update_ne (by rintro rfl; exact hoff ha),
      .update _ _ (by simp)⟩
  have ht₅ : TreeRep m₅ (some m.next) t' := ht₄.congr fun a ha => ObjectHeap.cell_update_ne (by
    rintro rfl
    exact hoff ha)
  obtain ⟨m₆, e₆, hh₆, ht₆, hl₆⟩ := hchild .left (firstOr m.next (t'.seq .left)) hh₅ ht₅
  obtain ⟨m₇, e₇, hh₇, ht₇, hl₇⟩ := hchild .right (firstOr m.next (t'.seq .right)) hh₆ ht₆
  refine ⟨m₇, t', ?_, ⟨⟨?_, ht₇, List.nodup_cons.mpr ⟨hoff, hnd⟩⟩, ?_⟩, ?_, hne, ?_⟩
  · have hminmax : copyMinMax m₅ m.next (root t') = some m₇ := by
      cases hr : root t' with
      | none =>
        obtain rfl : t' = .nil := by
          cases t' with
          | nil => rfl
          | node => cases hr
        simp only [copyMinMax, Option.bind_eq_bind]
        rw [RBTree.seq_nil, firstOr_nil] at e₆ e₇
        rw [e₆, Option.bind_some, e₇]
      | some r =>
        have hnext₅ : m.next ≤ m₅.next := by
          have h₅ : m₅.next = m₂.next := hl₄.1
          rw [h₅]
          exact Nat.le_trans ho₁.1 ho₂.1
        have hfuel₅ : t'.size ≤ m₅.fuel := by
          rw [hsize]
          exact Nat.le_of_lt (Nat.lt_of_lt_of_le h.rep.size_lt_fuel (Nat.succ_le_succ hnext₅))
        have hfuel₆ : t'.size ≤ m₆.fuel := by
          rw [Memory.fuel, hl₆.1]
          exact hfuel₅
        simp only [copyMinMax, Memory.descend_spec .left m.next ht₅ hr hfuel₅, e₆,
          Memory.descend_spec .right m.next ht₆ hr hfuel₆, Option.bind_eq_bind,
          Option.bind_some]
        exact e₇
    unfold copyConstruct
    simp only [ObjectHeap.alloc] at e₁ ⊢
    simp only [e₁, hs₁, Option.bind_eq_bind, Option.bind_some, headerOf, e₂, e₃, e₄, hs₄, e₅, hminmax]
  · rw [hh₇]
    simp [headerOf, hsize, RBTreeNode.setChild]
  · exact (isRB_map Prod.snd).mp (hmap ▸ (isRB_map Prod.snd).mpr h.isRB)
  · rw [values, values, ← RBTree.toList_map, hmap, RBTree.toList_map]
  · have hl : ObjectHeap.Local (m.next :: addrs t') m₂ m₇ := by
      refine ((((ObjectHeap.Local.update m₂ _ (by simp)).trans (hl₄.mono ?_)).trans
        (.update _ _ (by simp))).trans (hl₆.mono ?_)).trans (hl₇.mono ?_)
      · exact fun a ha => by simp [ha]
      · exact fun a ha => by simp [List.mem_singleton.mp ha]
      · exact fun a ha => by simp [List.mem_singleton.mp ha]
    refine (ho₁.trans ho₂ (by simp)).trans hl.outside fun a ha hlt => ?_
    rcases List.mem_cons.mp ha with rfl | ha
    · exact absurd hlt (Nat.lt_irrefl _)
    · exact absurd (hne a ha) (Nat.lt_asymm hlt)

end RankSet

end Brickred
