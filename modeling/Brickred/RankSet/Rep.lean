import Mathlib.Data.List.Perm.Subperm
import Brickred.RankSet.Model

/-!
# Heap trees: what a `RankSet`'s pointers represent

`TreeRep m p t` says that the heap `m` holds the tree `t` below the parent `p`:
every node's colour, parent pointer, child pointers, subtree count and value
are those of `t`. `SetRep` adds the header node; it is stated for the whole
tree, and `setRep_plug` opens it at any position as a context (`CtxRep`) and a
subtree.

The second half is the spec of the two pointer primitives the fixup loops are
made of: repainting a node (`setRed_spec`) and `rotate_spec`, and of the climb
`updateNodeCountToTop_spec` that repairs the counts of a whole path.
-/

namespace Brickred

open RedBlack

variable {T : Type}

/-! ## Tree nodes in memory -/

/-- What a tree stores per node: its address and its value. -/
abbrev Item (T : Type) := Addr × T

namespace HeapTree

/-- The pointer to a tree's root. -/
def root : RBTree (Item T) → Ptr
  | .nil => none
  | .node _ _ a _ => some a.1

/-- The node addresses of a tree, in order. -/
def addrs (t : RBTree (Item T)) : List Addr := t.toList.map Prod.fst

/-- The address a subtree's parent pointer names: the innermost frame, or the
header at the root. -/
def top (header : Addr) : Ctx (Item T) → Addr
  | [] => header
  | f :: _ => f.item.1

def ctxAddrs : Ctx (Item T) → List Addr
  | [] => []
  | f :: c => f.item.1 :: (addrs f.sib ++ ctxAddrs c)

/-- A heap node whose child on side `d` is `near`. -/
def mkNode (d : Dir) (red : Bool) (parent near far : Ptr) (count : Nat) (value : T) :
    RBTreeNode T :=
  match d with
  | .left => ⟨red, parent, near, far, count, value⟩
  | .right => ⟨red, parent, far, near, count, value⟩

/-- The heap `m` holds the tree `t`, whose root has the parent pointer `p`. -/
def TreeRep (m : Memory T) : Ptr → RBTree (Item T) → Prop
  | _, .nil => True
  | p, .node red l a r =>
    m.cell a.1 = some ⟨red, p, root l, root r, l.size + r.size + 1, a.2⟩ ∧
      TreeRep m (some a.1) l ∧ TreeRep m (some a.1) r

/-- The heap holds the context `c` around a hole that `hole` points to. With
`exact` the counts are those for a hole of `n` nodes; without, they are free. -/
def CtxRep (m : Memory T) (header : Addr) (hn : RBTreeNode T) (exact : Bool) :
    Ctx (Item T) → Ptr → Nat → Prop
  | [], hole, _ => m.cell header = some { hn with parent := hole }
  | f :: c, hole, n =>
    (∃ k, (exact = true → k = n + f.sib.size + 1) ∧
      m.cell f.item.1 =
        some (mkNode f.dir f.red (some (top header c)) hole (root f.sib) k f.item.2)) ∧
      TreeRep m (some f.item.1) f.sib ∧
      CtxRep m header hn exact c (some f.item.1) (n + f.sib.size + 1)

/-- The heap holds the whole tree `t` below the header node `hn`. -/
structure SetRep (m : Memory T) (header : Addr) (hn : RBTreeNode T) (t : RBTree (Item T)) :
    Prop where
  headerCell : m.cell header = some { hn with parent := root t }
  tree : TreeRep m (some header) t
  nodup : (header :: addrs t).Nodup

/-! ### `mkNode` -/

section MkNode

variable {d : Dir} {red b : Bool} {p q near far : Ptr} {k k' : Nat} {v : T}

@[simp] theorem isRed_mkNode : (mkNode d red p near far k v).isRed = red := by cases d <;> rfl

@[simp] theorem parent_mkNode : (mkNode d red p near far k v).parent = p := by cases d <;> rfl

@[simp] theorem nodeCount_mkNode : (mkNode d red p near far k v).nodeCount = k := by
  cases d <;> rfl

@[simp] theorem value_mkNode : (mkNode d red p near far k v).value = v := by cases d <;> rfl

@[simp] theorem child_mkNode : (mkNode d red p near far k v).child d = near := by
  cases d <;> rfl

@[simp] theorem child_opp_mkNode : (mkNode d red p near far k v).child d.opp = far := by
  cases d <;> rfl

@[simp] theorem setChild_mkNode :
    (mkNode d red p near far k v).setChild d q = mkNode d red p q far k v := by
  cases d <;> rfl

@[simp] theorem setChild_opp_mkNode :
    (mkNode d red p near far k v).setChild d.opp q = mkNode d red p near q k v := by
  cases d <;> rfl

@[simp] theorem setRed_mkNode :
    ({ mkNode d red p near far k v with isRed := b } : RBTreeNode T) =
      mkNode d b p near far k v := by
  cases d <;> rfl

@[simp] theorem setParent_mkNode :
    ({ mkNode d red p near far k v with parent := q } : RBTreeNode T) =
      mkNode d red q near far k v := by
  cases d <;> rfl

@[simp] theorem setCount_mkNode :
    ({ mkNode d red p near far k v with nodeCount := k' } : RBTreeNode T) =
      mkNode d red p near far k' v := by
  cases d <;> rfl

end MkNode

/-! ### Addresses -/

variable {m m' : Memory T} {header : Addr} {hn : RBTreeNode T} {p : Ptr} {t : RBTree (Item T)}
  {c : Ctx (Item T)} {e : Bool} {hole : Ptr} {n : Nat}

@[simp] theorem top_nil : top header ([] : Ctx (Item T)) = header := rfl

@[simp] theorem top_cons (f : Frame (Item T)) (c : Ctx (Item T)) :
    top header (f :: c) = f.item.1 := rfl

@[simp] theorem root_nil : root (.nil : RBTree (Item T)) = none := rfl

@[simp] theorem root_node (red : Bool) (l r : RBTree (Item T)) (a : Item T) :
    root (.node red l a r) = some a.1 := rfl

@[simp] theorem root_branch (d : Dir) (red : Bool) (a : Item T) (l r : RBTree (Item T)) :
    root (.branch d red a l r) = some a.1 := by cases d <;> rfl

@[simp] theorem root_blacken (t : RBTree (Item T)) : root t.blacken = root t := by
  cases t <;> rfl

@[simp] theorem addrs_nil : addrs (.nil : RBTree (Item T)) = [] := rfl

@[simp] theorem addrs_node (red : Bool) (l r : RBTree (Item T)) (a : Item T) :
    addrs (.node red l a r) = addrs l ++ a.1 :: addrs r := by
  simp [addrs, RBTree.toList]

@[simp] theorem addrs_blacken (t : RBTree (Item T)) : addrs t.blacken = addrs t := by
  simp [addrs]

theorem addrs_branch_perm (d : Dir) (red : Bool) (a : Item T) (l r : RBTree (Item T)) :
    (addrs (.branch d red a l r)).Perm (a.1 :: (addrs l ++ addrs r)) := by
  cases d with
  | left => simp [RBTree.branch]
  | right =>
    simp only [RBTree.branch, addrs_node]
    exact List.perm_middle.trans (List.Perm.cons _ List.perm_append_comm)

theorem mem_addrs_branch {d : Dir} {red : Bool} {a : Item T} {l r : RBTree (Item T)} {b : Addr} :
    b ∈ addrs (.branch d red a l r) ↔ b = a.1 ∨ b ∈ addrs l ∨ b ∈ addrs r := by
  simp [(addrs_branch_perm d red a l r).mem_iff]

theorem addrs_plug_perm : ∀ (c : Ctx (Item T)) (t : RBTree (Item T)),
    (addrs (plug c t)).Perm (ctxAddrs c ++ addrs t)
  | [], t => List.Perm.refl _
  | f :: c, t => by
    have hf := addrs_branch_perm f.dir f.red f.item t f.sib
    refine (addrs_plug_perm c (f.fill t)).trans ?_
    refine (List.Perm.append_left (ctxAddrs c) hf).trans ?_
    simp only [ctxAddrs, List.cons_append, List.append_assoc]
    refine List.perm_middle.trans (List.Perm.cons _ ?_)
    rw [← List.append_assoc]
    refine List.perm_append_comm.trans (List.Perm.append_left (addrs f.sib) ?_)
    exact List.Perm.refl _

theorem mem_addrs_plug {b : Addr} :
    b ∈ addrs (plug c t) ↔ b ∈ ctxAddrs c ∨ b ∈ addrs t := by
  rw [(addrs_plug_perm c t).mem_iff, List.mem_append]

/-- The tree's root is one of its addresses. -/
theorem root_mem {a : Addr} (h : root t = some a) : a ∈ addrs t := by
  cases t with
  | nil => cases h
  | node red l x r =>
    obtain rfl : x.1 = a := Option.some.inj h
    simp

/-- A tree with a root is a frame around its left subtree. -/
theorem exists_fill {a : Addr} (h : root t = some a) :
    ∃ (f : Frame (Item T)) (l : RBTree (Item T)), f.item.1 = a ∧ t = f.fill l := by
  cases t with
  | nil => cases h
  | node red l x r => exact ⟨⟨.left, red, x, r⟩, l, Option.some.inj h, rfl⟩

theorem addrs_eq_of_toList {t t' : RBTree (Item T)} (h : t.toList = t'.toList) :
    addrs t = addrs t' := by
  rw [addrs, h, addrs]

/-- What the distinctness of a plugged tree's addresses says at the hole. -/
theorem nodup_plug : (header :: addrs (plug c t)).Nodup ↔
    (header :: (ctxAddrs c ++ addrs t)).Nodup :=
  (List.Perm.cons header (addrs_plug_perm c t)).nodup_iff

/-! ### Frame lemmas -/

theorem TreeRep.congr : ∀ {p : Ptr} {t : RBTree (Item T)}, TreeRep m p t →
    (∀ a ∈ addrs t, m'.cell a = m.cell a) → TreeRep m' p t
  | _, .nil, _, _ => trivial
  | _, .node _ _ a _, ⟨ha, hl, hr⟩, h =>
    ⟨(h a.1 (by simp)).trans ha, hl.congr fun b hb => h b (by simp [hb]),
      hr.congr fun b hb => h b (by simp [hb])⟩

theorem CtxRep.congr : ∀ {c : Ctx (Item T)} {hole : Ptr} {n : Nat},
    CtxRep m header hn e c hole n → m'.cell header = m.cell header →
    (∀ a ∈ ctxAddrs c, m'.cell a = m.cell a) → CtxRep m' header hn e c hole n
  | [], _, _, h, hh, _ => hh.trans h
  | f :: _, _, _, ⟨⟨k, hk, hc⟩, hs, ht⟩, hh, h =>
    ⟨⟨k, hk, (h f.item.1 (by simp [ctxAddrs])).trans hc⟩,
      hs.congr fun b hb => h b (by simp [ctxAddrs, hb]),
      ht.congr hh fun b hb => h b (by simp [ctxAddrs, hb])⟩

/-- Forget that the counts are right. -/
theorem CtxRep.loose : ∀ {c : Ctx (Item T)} {hole : Ptr} {n n' : Nat},
    CtxRep m header hn e c hole n → CtxRep m header hn false c hole n'
  | [], _, _, _, h => h
  | _ :: _, _, _, _, ⟨⟨k, _, hc⟩, hs, ht⟩ => ⟨⟨k, by simp, hc⟩, hs, ht.loose⟩

theorem treeRep_branch {d : Dir} {red : Bool} {a : Item T} {near far : RBTree (Item T)} :
    TreeRep m p (.branch d red a near far) ↔
      m.cell a.1 = some (mkNode d red p (root near) (root far) (near.size + far.size + 1) a.2) ∧
        TreeRep m (some a.1) near ∧ TreeRep m (some a.1) far := by
  cases d
  · rfl
  · simp only [RBTree.branch, TreeRep, mkNode, Nat.add_comm far.size]
    tauto

/-- A tree read below another parent differs in its root's parent pointer. -/
theorem TreeRep.reparent {q : Ptr} (h : TreeRep m p t) (hnd : (addrs t).Nodup)
    (hoff : ∀ a ∈ addrs t, root t ≠ some a → m'.cell a = m.cell a)
    (hroot : ∀ a, root t = some a → ∃ x, m.cell a = some x ∧
      m'.cell a = some { x with parent := q }) : TreeRep m' q t := by
  cases t with
  | nil => trivial
  | node red l x r =>
    obtain ⟨hx, hl, hr⟩ := h
    obtain ⟨y, hy, hy'⟩ := hroot x.1 rfl
    obtain rfl := Option.some.inj (hx.symm.trans hy)
    have hne : ∀ a, a ∈ addrs l ∨ a ∈ addrs r → x.1 ≠ a := by
      rintro a ha rfl
      simp only [addrs_node, List.nodup_append, List.nodup_cons] at hnd
      rcases ha with ha | ha
      · exact hnd.2.2 x.1 ha x.1 (by simp) rfl
      · exact hnd.2.1.1 ha
    refine ⟨hy', hl.congr fun a ha => ?_, hr.congr fun a ha => ?_⟩
    · exact hoff a (by simp [ha]) fun h => hne a (.inl ha) (Option.some.inj h)
    · exact hoff a (by simp [ha]) fun h => hne a (.inr ha) (Option.some.inj h)

/-- The count field of a represented root is the size of the tree. -/
theorem TreeRep.countAt (h : TreeRep m p t) : m.countAt (root t) = some t.size := by
  cases t with
  | nil => rfl
  | node red l a r =>
    rw [root, Memory.countAt, h.1]
    rfl

/-- The colour field of a represented root is the colour of the tree. -/
theorem TreeRep.redAt (h : TreeRep m p t) : m.redAt (root t) = some t.isRed := by
  cases t with
  | nil => rfl
  | node red l a r =>
    rw [root, Memory.redAt, h.1]
    rfl

theorem TreeRep.cell_ne_none : ∀ {p : Ptr} {t : RBTree (Item T)}, TreeRep m p t →
    ∀ a ∈ addrs t, ∃ x, m.cell a = some x
  | _, .node red l x r, ⟨hx, hl, hr⟩, a, ha => by
    rw [addrs_node, List.mem_append, List.mem_cons] at ha
    rcases ha with ha | rfl | ha
    · exact hl.cell_ne_none a ha
    · exact ⟨_, hx⟩
    · exact hr.cell_ne_none a ha

/-! ### Opening a whole tree at a position -/

theorem ctxRep_plug : ∀ {c : Ctx (Item T)} {t : RBTree (Item T)},
    (m.cell header = some { hn with parent := root (plug c t) } ∧
        TreeRep m (some header) (plug c t)) ↔
      CtxRep m header hn true c (root t) t.size ∧ TreeRep m (some (top header c)) t
  | [], t => Iff.rfl
  | f :: c, t => by
    rw [plug, ctxRep_plug (c := c), Frame.fill, treeRep_branch, CtxRep]
    simp only [root_branch, RBTree.size_branch, top]
    constructor
    · rintro ⟨hc, hf, ht, hs⟩
      exact ⟨⟨⟨_, fun _ => rfl, hf⟩, hs, hc⟩, ht⟩
    · rintro ⟨⟨⟨k, hk, hf⟩, hs, hc⟩, ht⟩
      rw [hk trivial] at hf
      exact ⟨hc, hf, ht, hs⟩

theorem setRep_plug : SetRep m header hn (plug c t) ↔
    CtxRep m header hn true c (root t) t.size ∧ TreeRep m (some (top header c)) t ∧
      (header :: (ctxAddrs c ++ addrs t)).Nodup := by
  rw [← nodup_plug, ← and_assoc, ← ctxRep_plug]
  exact ⟨fun h => ⟨⟨h.headerCell, h.tree⟩, h.nodup⟩, fun h => ⟨h.1.1, h.1.2, h.2⟩⟩

/-- The cell of any node of a represented tree. -/
theorem SetRep.cell {d : Dir} {red : Bool} {a : Item T} {near far : RBTree (Item T)}
    (h : SetRep m header hn (plug c (.branch d red a near far))) :
    m.cell a.1 = some (mkNode d red (some (top header c)) (root near) (root far)
      (near.size + far.size + 1) a.2) :=
  (treeRep_branch.mp (setRep_plug.mp h).2.1).1

/-- The cell of the node above the focus. -/
theorem SetRep.cellFrame {f : Frame (Item T)} (h : SetRep m header hn (plug (f :: c) t)) :
    m.cell f.item.1 = some (mkNode f.dir f.red (some (top header c)) (root t) (root f.sib)
      (t.size + f.sib.size + 1) f.item.2) :=
  h.cell (c := c)

theorem SetRep.redAt (h : SetRep m header hn (plug c t)) : m.redAt (root t) = some t.isRed :=
  (setRep_plug.mp h).2.1.redAt

/-- The parent pointer and the colour of the focus' root. -/
theorem SetRep.cellRoot {a : Addr} (h : SetRep m header hn (plug c t)) (ha : root t = some a) :
    ∃ x, m.cell a = some x ∧ x.parent = some (top header c) ∧ x.isRed = t.isRed := by
  cases t with
  | nil => cases ha
  | node red l b r =>
    obtain rfl : b.1 = a := Option.some.inj ha
    exact ⟨_, h.cell (d := .left), rfl, rfl⟩

/-- A node is not its own sibling. -/
theorem SetRep.root_ne_sib {f : Frame (Item T)} {a : Addr}
    (h : SetRep m header hn (plug (f :: c) t)) (ha : root t = some a) :
    root f.sib ≠ some a := by
  intro hs
  have hnd := (setRep_plug.mp h).2.2
  simp only [ctxAddrs, List.nodup_cons, List.cons_append, List.append_assoc,
    List.nodup_append] at hnd
  have h₁ := root_mem hs
  have h₂ := root_mem ha
  exact hnd.2.2.2.2 a h₁ a (by simp [h₂]) rfl

/-- The root of a tree seen from inside it is the outermost node of the context. -/
theorem ctxAddrs_root_mem : ∀ (f : Frame (Item T)) (c : Ctx (Item T)),
    ∃ a, (∀ t, root (plug (f :: c) t) = some a) ∧ a ∈ ctxAddrs (f :: c)
  | f, [] => ⟨f.item.1, fun _ => root_branch .., by simp [ctxAddrs]⟩
  | f, g :: c => by
    obtain ⟨a, ha, hm⟩ := ctxAddrs_root_mem g c
    refine ⟨a, fun t => ha (f.fill t), ?_⟩
    simp only [ctxAddrs, List.mem_cons, List.mem_append] at hm ⊢
    tauto

/-- Below a nonempty context the focus is not the root of the tree. -/
theorem SetRep.root_ne {f : Frame (Item T)} {a : Addr}
    (h : SetRep m header hn (plug (f :: c) t)) (ha : root t = some a) :
    root (plug (f :: c) t) ≠ some a := by
  obtain ⟨b, hb, hmem⟩ := ctxAddrs_root_mem f c
  have hnd := (List.nodup_cons.mp (setRep_plug.mp h).2.2).2
  rw [hb]
  rintro hab
  obtain rfl := Option.some.inj hab
  exact (List.nodup_append.mp hnd).2.2 b hmem b (root_mem ha) rfl

theorem SetRep.root_plug_ne {f : Frame (Item T)} (h : SetRep m header hn (plug (f :: c) t)) :
    root (plug (f :: c) t) ≠ root t := by
  obtain ⟨a, ha, -⟩ := ctxAddrs_root_mem f c
  rw [ha]
  exact fun he => h.root_ne he.symm (ha t)

/-- The header node matters up to its root pointer. -/
theorem SetRep.congrHeader {hn' : RBTreeNode T} (h : SetRep m header hn t)
    (he : ({ hn with parent := root t } : RBTreeNode T) = { hn' with parent := root t }) :
    SetRep m header hn' t :=
  ⟨he ▸ h.headerCell, h.tree, h.nodup⟩

/-- No node of the tree is the header. -/
theorem SetRep.ne_header (h : SetRep m header hn t) {a : Addr} (ha : a ∈ addrs t) :
    a ≠ header := by
  rintro rfl
  exact (List.nodup_cons.mp h.nodup).1 ha

theorem SetRep.cell_ne_none (h : SetRep m header hn t) :
    ∀ a ∈ header :: addrs t, ∃ x, m.cell a = some x := by
  intro a ha
  rcases List.mem_cons.mp ha with rfl | ha
  · exact ⟨_, h.headerCell⟩
  · exact h.tree.cell_ne_none a ha

/-- Addresses are allocated below `next`, so the header and the nodes together
are no more than that. -/
theorem SetRep.size_lt_next (h : SetRep m header hn t) : t.size < m.next := by
  have hsub : header :: addrs t ⊆ List.range m.next := by
    intro a ha
    obtain ⟨x, hx⟩ := h.cell_ne_none a ha
    exact List.mem_range.mpr (ObjectHeap.lt_next hx)
  have hlen := (List.subperm_of_subset h.nodup hsub).length_le
  simp only [List.length_cons, List.length_range, addrs, List.length_map, RBTree.toList_length] at hlen
  exact hlen

theorem SetRep.size_lt_fuel (h : SetRep m header hn t) : t.size < m.fuel :=
  Nat.lt_succ_of_lt h.size_lt_next

/-! ## Primitive writes -/

theorem setParentIf_spec (h : TreeRep m p t) (hnd : (addrs t).Nodup) (q : Addr) :
    ∃ m', m.setParentIf (root t) q = some m' ∧ TreeRep m' (some q) t ∧
      ObjectHeap.Local (addrs t) m m' := by
  cases ht : root t with
  | none =>
    cases t with
    | nil => exact ⟨m, rfl, trivial, .refl _ _⟩
    | node => cases ht
  | some a =>
    obtain ⟨x, hx⟩ := h.cell_ne_none a (root_mem ht)
    refine ⟨_, ObjectHeap.modify_eq hx, h.reparent hnd ?_ ?_, .update _ _ (root_mem ht)⟩
    · intro b _ hb
      refine ObjectHeap.cell_update_ne ?_
      rintro rfl
      exact hb ht
    · intro b hb
      obtain rfl := Option.some.inj (ht.symm.trans hb)
      exact ⟨x, hx, ObjectHeap.cell_update_self hx⟩

/-- Overwrite the pointer that leads into the hole of `c`. -/
def setHole (c : Ctx (Item T)) (hole : Ptr) (x : RBTreeNode T) : RBTreeNode T :=
  match c with
  | [] => { x with parent := hole }
  | f :: _ => x.setChild f.dir hole

theorem CtxRep.cell_top (h : CtxRep m header hn e c hole n) :
    ∃ x, m.cell (top header c) = some x := by
  cases c with
  | nil => exact ⟨_, h⟩
  | cons f c =>
    obtain ⟨⟨k, -, hk⟩, -⟩ := h
    exact ⟨_, hk⟩

theorem CtxRep.setHole (h : CtxRep m header hn e c hole n)
    (hnd : (header :: ctxAddrs c).Nodup) (q : Ptr) :
    CtxRep (m.update (top header c) (setHole c q)) header hn e c q n := by
  cases c with
  | nil => exact (ObjectHeap.cell_update_self h).trans rfl
  | cons f c =>
    obtain ⟨⟨k, hk, hc⟩, hs, ht⟩ := h
    simp only [ctxAddrs, List.nodup_cons, List.mem_cons, List.mem_append, not_or] at hnd
    obtain ⟨⟨hf, -, -⟩, ⟨hfs, hfc⟩, -⟩ := hnd
    refine ⟨⟨k, hk, ?_⟩, hs.congr fun b hb => ?_, ht.congr ?_ fun b hb => ?_⟩
    · rw [top, ObjectHeap.cell_update_self hc, HeapTree.setHole, setChild_mkNode]
    · refine ObjectHeap.cell_update_ne ?_
      rintro rfl
      exact hfs hb
    · exact ObjectHeap.cell_update_ne hf
    · refine ObjectHeap.cell_update_ne ?_
      rintro rfl
      exact hfc hb

theorem CtxRep.headerCell (h : CtxRep m header hn e c hole n) :
    ∃ p, m.cell header = some { hn with parent := p } := by
  induction c generalizing hole n with
  | nil => exact ⟨hole, h⟩
  | cons g c ih => exact ih h.2.2

/-- Writing header fields other than the root pointer. -/
theorem CtxRep.reheader {hn' : RBTreeNode T} (h : CtxRep m header hn e c hole n)
    (hoff : ∀ a ∈ ctxAddrs c, m'.cell a = m.cell a)
    (hh : ∀ p, m.cell header = some { hn with parent := p } →
      m'.cell header = some { hn' with parent := p }) :
    CtxRep m' header hn' e c hole n := by
  induction c generalizing hole n with
  | nil => exact hh hole h
  | cons g c ih =>
    obtain ⟨⟨k, hk, hc⟩, hs, ht⟩ := h
    refine ⟨⟨k, hk, (hoff _ (by simp [ctxAddrs])).trans hc⟩, hs.congr fun b hb => ?_,
      ih ht fun b hb => ?_⟩
    · exact hoff b (by simp [ctxAddrs, hb])
    · exact hoff b (by simp [ctxAddrs, hb])

theorem SetRep.updateHeader {f : RBTreeNode T → RBTreeNode T}
    (h : SetRep m header hn t) (hn' : RBTreeNode T) (hf : ∀ p, f { hn with parent := p } = { hn' with parent := p }) :
    SetRep (m.update header f) header hn' t := by
  refine ⟨by rw [ObjectHeap.cell_update_self h.headerCell, hf], h.tree.congr fun a ha => ?_, h.nodup⟩
  refine ObjectHeap.cell_update_ne ?_
  rintro rfl
  exact (List.nodup_cons.mp h.nodup).1 ha

/-- The innermost frame or the header is not inside the focus. -/
theorem top_not_mem (hnd : (header :: (ctxAddrs c ++ addrs t)).Nodup) :
    top header c ∉ addrs t := by
  intro h
  cases c with
  | nil => exact (List.nodup_cons.mp hnd).1 (List.mem_append_right _ h)
  | cons f c =>
    have hd := (List.nodup_append.mp (List.nodup_cons.mp hnd).2).2.2
    exact hd f.item.1 (by simp [ctxAddrs]) f.item.1 h rfl

theorem top_mem (header : Addr) (c : Ctx (Item T)) : top header c ∈ header :: ctxAddrs c := by
  cases c <;> simp [top, ctxAddrs]

/-- Exchange the focus for one with the same addresses and size, when only the
focus and the pointer to its root have been written. -/
theorem SetRep.exchange {t' : RBTree (Item T)} (h : SetRep m header hn (plug c t))
    (hoff : ∀ a, a ∉ addrs t → m'.cell a =
      if a = top header c then (m.cell a).map (setHole c (root t')) else m.cell a)
    (ht : TreeRep m' (some (top header c)) t') (hsize : t'.size = t.size)
    (haddrs : (addrs t').Perm (addrs t)) : SetRep m' header hn (plug c t') := by
  obtain ⟨hc, -, hnd⟩ := setRep_plug.mp h
  have hcnd : (header :: ctxAddrs c).Nodup :=
    hnd.sublist (List.Sublist.cons_cons _ (List.sublist_append_left _ _))
  have hdisj : ∀ a ∈ header :: ctxAddrs c, a ∉ addrs t := by
    intro a ha hat
    have hnd' : ((header :: ctxAddrs c) ++ addrs t).Nodup := hnd
    exact (List.nodup_append.mp hnd').2.2 a ha a hat rfl
  refine setRep_plug.mpr ⟨?_, ht, ?_⟩
  · rw [hsize]
    refine (hc.setHole hcnd (root t')).congr ?_ fun a ha => ?_
    · rw [hoff header (hdisj header (by simp)), ObjectHeap.cell_update]
    · rw [hoff a (hdisj a (by simp [ha])), ObjectHeap.cell_update]
  · exact (List.Perm.nodup_iff (List.Perm.cons _ (List.Perm.append_left _ haddrs))).mpr hnd

/-- One piece of a rebalancing run: the heap holds `t'` instead of `t`, the
in-order sequence is the same, and only the set's own nodes were written. -/
structure Rearranged (m m' : Memory T) (header : Addr) (hn : RBTreeNode T)
    (t t' : RBTree (Item T)) : Prop where
  rep : SetRep m' header hn t'
  toList : t'.toList = t.toList
  written : ObjectHeap.Local (header :: addrs t) m m'

theorem Rearranged.refl (h : SetRep m header hn t) : Rearranged m m header hn t t :=
  ⟨h, rfl, .refl _ _⟩

theorem Rearranged.trans {m₁ m₂ m₃ : Memory T} {t₁ t₂ t₃ : RBTree (Item T)}
    (h₁ : Rearranged m₁ m₂ header hn t₁ t₂) (h₂ : Rearranged m₂ m₃ header hn t₂ t₃) :
    Rearranged m₁ m₃ header hn t₁ t₃ where
  rep := h₂.rep
  toList := h₂.toList.trans h₁.toList
  written := h₁.written.trans (addrs_eq_of_toList h₁.toList ▸ h₂.written)

/-- Repainting a node. -/
theorem setRed_spec {d : Dir} {red b : Bool} {a : Item T} {near far : RBTree (Item T)}
    (h : SetRep m header hn (plug c (.branch d red a near far))) :
    ∃ m', m.setRed a.1 b = some m' ∧
      Rearranged m m' header hn (plug c (.branch d red a near far))
        (plug c (.branch d b a near far)) := by
  obtain ⟨hc, ht, hnd⟩ := setRep_plug.mp h
  obtain ⟨ha, hn', hf⟩ := treeRep_branch.mp ht
  have hnd' := (List.Perm.nodup_iff (addrs_branch_perm d red a near far)).mp
    (List.nodup_append.mp (List.nodup_cons.mp hnd).2).2.1
  rw [List.nodup_cons, List.mem_append, not_or] at hnd'
  have hat : a.1 ∈ addrs (.branch d red a near far) := mem_addrs_branch.mpr (.inl rfl)
  refine ⟨_, ObjectHeap.modify_eq ha, ?_, toList_plug_congr c (RBTree.toList_branch_congr rfl rfl),
    .update _ _ (List.mem_cons_of_mem _ (mem_addrs_plug.mpr (.inr hat)))⟩
  refine setRep_plug.mpr ⟨?_, treeRep_branch.mpr ⟨?_, ?_, ?_⟩, ?_⟩
  · rw [root_branch, RBTree.size_branch] at hc ⊢
    refine hc.congr (ObjectHeap.cell_update_ne ?_) fun b hb => ObjectHeap.cell_update_ne ?_
    · rintro rfl
      exact (List.nodup_cons.mp hnd).1 (by simp [hat])
    · rintro rfl
      exact (List.nodup_append.mp (List.nodup_cons.mp hnd).2).2.2 _ hb _ hat rfl
  · rw [ObjectHeap.cell_update_self ha, setRed_mkNode]
  · exact hn'.congr fun b hb => ObjectHeap.cell_update_ne fun h => hnd'.1.1 (h ▸ hb)
  · exact hf.congr fun b hb => ObjectHeap.cell_update_ne fun h => hnd'.1.2 (h ▸ hb)
  · refine (List.Perm.nodup_iff (List.Perm.cons _ (List.Perm.append_left _ ?_))).mpr hnd
    exact (addrs_branch_perm ..).trans (addrs_branch_perm ..).symm

/-- Which child of its parent the focus is. -/
theorem SetRep.child_eq_iff {f : Frame (Item T)} {a : Addr}
    (h : SetRep m header hn (plug (f :: c) t)) (ha : root t = some a) (d : Dir) :
    (mkNode f.dir f.red p (root t) (root f.sib) n f.item.2).child d = some a ↔ d = f.dir := by
  have hsib := h.root_ne_sib ha
  cases hd : f.dir <;> cases d <;> simp [mkNode, RBTreeNode.child, hsib, ha]

/-- The test by which the fixup loops tell the side of the focus. -/
theorem side_eq {f : Frame (Item T)} (hne : root f.sib ≠ root t) (p : Ptr) (n : Nat) :
    (if (mkNode f.dir f.red p (root t) (root f.sib) n f.item.2).left = root t
      then Dir.left else .right) = f.dir := by
  cases f.dir <;> simp [mkNode, hne]

/-- Repainting through a possibly null pointer: paint the root of the focus. -/
theorem setRedIf_spec (h : SetRep m header hn (plug c t)) :
    ∃ m', m.setRedIf (root t) false = some m' ∧
      Rearranged m m' header hn (plug c t) (plug c t.blacken) := by
  cases t with
  | nil => exact ⟨m, rfl, .refl h⟩
  | node red l a r => exact setRed_spec (d := .left) h

/-! ## Counting -/

theorem updateNodeCount_eq {d : Dir} {red : Bool} {q : Ptr} {k : Nat} {a : Item T}
    {near far : RBTree (Item T)}
    (ha : m.cell a.1 = some (mkNode d red q (root near) (root far) k a.2))
    (hnear : TreeRep m (some a.1) near) (hfar : TreeRep m (some a.1) far) :
    m.updateNodeCount a.1 =
      some (m.update a.1 fun n => { n with nodeCount := near.size + far.size + 1 }) := by
  cases d with
  | left =>
    simp only [Memory.updateNodeCount, ha, Option.bind_eq_bind, Option.bind_some, mkNode,
      hnear.countAt, hfar.countAt]
    exact ObjectHeap.modify_eq ha
  | right =>
    simp only [Memory.updateNodeCount, ha, Option.bind_eq_bind, Option.bind_some, mkNode,
      hnear.countAt, hfar.countAt, Nat.add_comm far.size]
    exact ObjectHeap.modify_eq ha

/-- The climb to the header turns free counts into right ones. -/
theorem updateNodeCountToTop_spec (s : RankSet T) :
    ∀ {c : Ctx (Item T)} {t : RBTree (Item T)} {m : Memory T} {k fuel : Nat},
      CtxRep m s.header hn false c (root t) k → TreeRep m (some (top s.header c)) t →
      (s.header :: (ctxAddrs c ++ addrs t)).Nodup → c.length < fuel →
      ∃ m', s.updateNodeCountToTop fuel m (top s.header c) = some m' ∧
        SetRep m' s.header hn (plug c t) ∧ ObjectHeap.Local (ctxAddrs c) m m'
  | [], t, m, k, fuel, hc, ht, hnd, hfuel => by
    obtain ⟨fuel, rfl⟩ := Nat.exists_eq_succ_of_ne_zero (Nat.ne_of_gt hfuel)
    refine ⟨m, by simp [RankSet.updateNodeCountToTop, top], ?_, .refl _ _⟩
    exact ⟨hc, ht, hnd⟩
  | f :: c, t, m, k, fuel, ⟨⟨j, _, hf⟩, hs, hc⟩, ht, hnd, hfuel => by
    obtain ⟨fuel, rfl⟩ := Nat.exists_eq_succ_of_ne_zero (Nat.ne_of_gt (Nat.zero_lt_of_lt hfuel))
    have hcount := updateNodeCount_eq hf ht hs
    have hnd₀ := hnd
    simp only [ctxAddrs, List.cons_append, List.nodup_cons, List.mem_cons, List.mem_append,
      not_or] at hnd
    obtain ⟨⟨hfh, ⟨-, -⟩, -⟩, ⟨⟨hfs, hfc⟩, hft⟩, -⟩ := hnd
    have hoff : ∀ b, b ≠ f.item.1 →
        (m.update f.item.1 fun n => { n with nodeCount := t.size + f.sib.size + 1 }).cell b =
          m.cell b := fun b hb => ObjectHeap.cell_update_ne hb
    obtain ⟨m', hrun, hrep, hloc⟩ := updateNodeCountToTop_spec s (c := c) (t := f.fill t)
      (m := m.update f.item.1 fun n => { n with nodeCount := t.size + f.sib.size + 1 })
      (k := k + f.sib.size + 1)
      (by
        rw [Frame.fill, root_branch]
        exact hc.congr (hoff _ hfh) fun b hb => hoff b fun h => hfc (h ▸ hb))
      (treeRep_branch.mpr ⟨by rw [ObjectHeap.cell_update_self hf, setCount_mkNode],
        ht.congr fun b hb => hoff b fun h => hft (h ▸ hb),
        hs.congr fun b hb => hoff b fun h => hfs (h ▸ hb)⟩)
      (by
        refine (List.Perm.nodup_iff ?_).mp hnd₀
        refine List.Perm.cons _ ?_
        exact (addrs_plug_perm (f :: c) t).symm.trans (addrs_plug_perm c (f.fill t)))
      (Nat.lt_of_succ_lt_succ hfuel)
    refine ⟨m', ?_, hrep, ?_⟩
    · rw [RankSet.updateNodeCountToTop, if_neg (by simpa [top] using fun h => hfh h.symm)]
      simp only [top, hcount, Option.bind_eq_bind, Option.bind_some, ObjectHeap.cell_update_self hf,
        parent_mkNode]
      exact hrun
    · refine (ObjectHeap.Local.update m _ (by simp [ctxAddrs])).trans (hloc.mono fun b hb => ?_)
      simp [ctxAddrs, hb]

/-- On right counts the climb changes nothing. -/
theorem updateNodeCountToTop_rearranged (s : RankSet T) (h : SetRep m s.header hn (plug c t)) :
    ∃ m', s.updateNodeCountToTop m.fuel m (top s.header c) = some m' ∧
      Rearranged m m' s.header hn (plug c t) (plug c t) := by
  obtain ⟨hc, ht, hnd⟩ := setRep_plug.mp h
  have hlen : c.length < m.fuel := Nat.lt_of_le_of_lt (length_le_size_plug c t) h.size_lt_fuel
  obtain ⟨m', hm', hr, hl⟩ := updateNodeCountToTop_spec s (hc.loose : CtxRep _ _ _ false _ _ 0) ht hnd hlen
  refine ⟨m', hm', hr, rfl, hl.mono fun a ha => ?_⟩
  exact List.mem_cons_of_mem _ (mem_addrs_plug.mpr (.inl ha))

/-! ## Rotation -/

/-- In a heap that still has the focus' parent links, `replaceChild` writes the
pointer that leads to the focus, whichever side it tests first. -/
theorem replaceChild_eq (s : RankSet T) (m' : Memory T) {x : Addr} {n : RBTreeNode T}
    (d : Dir) (q : Ptr)
    (h : SetRep m s.header hn (plug c t)) (hx : root t = some x)
    (hh : m'.cell s.header = m.cell s.header)
    (htop : m'.cell (top s.header c) = m.cell (top s.header c))
    (hcell : m'.cell x = some n) (hpar : n.parent = some (top s.header c)) :
    s.replaceChild d m' x q = some (m'.update (top s.header c) (setHole c q)) := by
  have hroot := h.headerCell
  cases c with
  | nil =>
    have hroot' : m'.cell s.header = some { hn with parent := some x } := by
      rw [hh, hroot, ← hx]
      rfl
    simp only [RankSet.replaceChild, hroot', Option.bind_eq_bind, Option.bind_some, if_true]
    exact ObjectHeap.modify_eq hroot'
  | cons f c =>
    have hf := h.cellFrame
    rw [hx] at hf
    have hf' := htop.trans hf
    have hne := h.root_ne hx
    simp only [RankSet.replaceChild, hh, hroot, hcell, hpar, Option.bind_eq_bind,
      Option.bind_some, if_neg hne, hf']
    have hside := fun d' => hx ▸ h.child_eq_iff (p := some (top s.header c))
      (n := t.size + f.sib.size + 1) hx d'
    by_cases hd : d = f.dir
    · rw [if_pos ((hside d).mpr hd), hd]
      exact ObjectHeap.modify_eq hf'
    · have hd' : d.opp = f.dir := by
        revert hd
        cases d <;> cases f.dir <;> simp
      rw [if_neg (fun h => hd ((hside d).mp h)), hd']
      exact ObjectHeap.modify_eq hf'

/-- `x` is counted, and then `y` above it. -/
theorem recount_spec {d : Dir} {rx ry : Bool} {x y : Item T} {yo yi z : RBTree (Item T)}
    {p : Ptr} {k l : Nat} (hnd : (addrs (.branch d ry y (.branch d rx x z yi) yo)).Nodup)
    (hx : m.cell x.1 = some (mkNode d rx (some y.1) (root z) (root yi) k x.2))
    (hy : m.cell y.1 = some (mkNode d ry p (some x.1) (root yo) l y.2))
    (hz : TreeRep m (some x.1) z) (hyi : TreeRep m (some x.1) yi)
    (hyo : TreeRep m (some y.1) yo) :
    ∃ m', ((m.updateNodeCount x.1).bind fun m => m.updateNodeCount y.1) = some m' ∧
      TreeRep m' p (.branch d ry y (.branch d rx x z yi) yo) ∧
      ObjectHeap.Local [x.1, y.1] m m' := by
  obtain ⟨hyt, hnd⟩ := List.nodup_cons.mp ((addrs_branch_perm ..).nodup_iff.mp hnd)
  obtain ⟨hinner, -, hdisjoint⟩ := List.nodup_append.mp hnd
  obtain ⟨hxt, -⟩ := List.nodup_cons.mp ((addrs_branch_perm ..).nodup_iff.mp hinner)
  rw [List.mem_append, not_or] at hyt hxt
  obtain ⟨hyt, hyyo⟩ := hyt
  have hyx : y.1 ≠ x.1 := fun he => hyt (mem_addrs_branch.mpr (.inl he))
  have hxyo : x.1 ∉ addrs yo := fun hm => hdisjoint _ (mem_addrs_branch.mpr (.inl rfl)) _ hm rfl
  have hcx := updateNodeCount_eq hx hz hyi
  obtain ⟨m₁, hm₁⟩ : ∃ k, k = m.update x.1 fun n =>
    { n with nodeCount := z.size + yi.size + 1 } := ⟨_, rfl⟩
  have hoff₁ : ∀ b, b ≠ x.1 → m₁.cell b = m.cell b := fun b hb => by
    rw [hm₁, ObjectHeap.cell_update_ne hb]
  have hbranch : TreeRep m₁ (some y.1) (.branch d rx x z yi) := by
    refine treeRep_branch.mpr ⟨?_, ?_, ?_⟩
    · rw [hm₁, ObjectHeap.cell_update_self hx, setCount_mkNode]
    · exact hz.congr fun b hb => hoff₁ b (by rintro rfl; exact hxt.1 hb)
    · exact hyi.congr fun b hb => hoff₁ b (by rintro rfl; exact hxt.2 hb)
  have hyo₁ : TreeRep m₁ (some y.1) yo :=
    hyo.congr fun b hb => hoff₁ b (by rintro rfl; exact hxyo hb)
  have hy₁ : m₁.cell y.1 = some (mkNode d ry p (root (.branch d rx x z yi)) (root yo) l y.2) := by
    rw [hoff₁ y.1 hyx, hy, root_branch]
  have hcy := updateNodeCount_eq hy₁ hbranch hyo₁
  rw [← hm₁] at hcx
  refine ⟨_, by rw [hcx, Option.bind_some, hcy], treeRep_branch.mpr ⟨?_, ?_, ?_⟩, ?_, fun b hb => ?_⟩
  · rw [ObjectHeap.cell_update_self hy₁, setCount_mkNode]
  · refine hbranch.congr fun b hb => ObjectHeap.cell_update_ne ?_
    rintro rfl
    exact hyt hb
  · exact hyo₁.congr fun b hb => ObjectHeap.cell_update_ne (by rintro rfl; exact hyyo hb)
  · rw [ObjectHeap.next_update, hm₁, ObjectHeap.next_update]
  · simp only [List.mem_cons, List.not_mem_nil, or_false, not_or] at hb
    rw [ObjectHeap.cell_update_ne hb.2, hoff₁ b hb.1]

theorem rotate_spec (s : RankSet T) {d : Dir} {rx ry : Bool} {x y : Item T}
    {yo yi z : RBTree (Item T)}
    (h : SetRep m s.header hn (plug c (.branch d rx x z (.branch d ry y yi yo)))) :
    ∃ m', s.rotate d m x.1 = some m' ∧
      Rearranged m m' s.header hn (plug c (.branch d rx x z (.branch d ry y yi yo)))
        (plug c (.branch d ry y (.branch d rx x z yi) yo)) := by
  obtain ⟨hc, ht, hnd⟩ := setRep_plug.mp h
  obtain ⟨hx, hz, hyt⟩ := treeRep_branch.mp ht
  obtain ⟨hy, hyi, hyo⟩ := treeRep_branch.mp hyt
  rw [root_branch] at hx
  -- the addresses involved are pairwise distinct
  have hperm : (addrs (.branch d rx x z (.branch d ry y yi yo))).Perm
      (x.1 :: (addrs z ++ y.1 :: (addrs yi ++ addrs yo))) :=
    (addrs_branch_perm ..).trans
      (List.Perm.cons _ (List.Perm.append_left _ (addrs_branch_perm ..)))
  have hP := top_not_mem hnd
  have hH : s.header ∉ addrs (.branch d rx x z (.branch d ry y yi yo)) := fun hm =>
    (List.nodup_cons.mp hnd).1 (List.mem_append_right _ hm)
  have hbranch := (List.nodup_append.mp (List.nodup_cons.mp hnd).2).2.1
  have hnt := hperm.nodup_iff.mp hbranch
  simp only [mem_addrs_branch, not_or] at hP hH
  simp only [List.nodup_cons, List.mem_append, List.mem_cons, List.nodup_append, not_or] at hnt
  obtain ⟨⟨hxz, hxy, hxyi, hxyo⟩, -, ⟨⟨hyyi, hyyo⟩, hyind, -, hyio⟩, hzd⟩ := hnt
  set P := top s.header c with hPdef
  -- update x
  have hx₁ : (m.update x.1 fun n => n.setChild d.opp (root yi)).cell x.1 =
      some (mkNode d rx (some P) (root z) (root yi)
        (z.size + (RBTree.branch d ry y yi yo).size + 1) x.2) := by
    rw [ObjectHeap.cell_update_self hx, setChild_opp_mkNode]
  -- update 2
  obtain ⟨m₂, hm₂, hyi₂, hl₂⟩ := setParentIf_spec
    (m := m.update x.1 fun n => n.setChild d.opp (root yi)) (p := some y.1) (t := yi)
    (hyi.congr fun b hb => ObjectHeap.cell_update_ne (by rintro rfl; exact hxyi hb)) hyind x.1
  have hoff₂ : ∀ b, b ∉ addrs yi → b ≠ x.1 → m₂.cell b = m.cell b := fun b hb hbx =>
    (hl₂.2 b hb).trans (ObjectHeap.cell_update_ne hbx)
  have hx₂ := (hl₂.2 x.1 hxyi).trans hx₁
  have hy₂ := (hoff₂ y.1 hyyi (Ne.symm hxy)).trans hy
  -- update y
  obtain ⟨m₃, hm₃⟩ : ∃ k, k = m₂.update y.1 fun n => { n with parent := some P } := ⟨_, rfl⟩
  have hoff₃ : ∀ b, b ≠ y.1 → m₃.cell b = m₂.cell b := fun b hb => by
    rw [hm₃, ObjectHeap.cell_update_ne hb]
  have hy₃ : m₃.cell y.1 = some (mkNode d ry (some P) (root yi) (root yo)
      (yi.size + yo.size + 1) y.2) := by
    rw [hm₃, ObjectHeap.cell_update_self hy₂, setParent_mkNode]
  have hx₃ := (hoff₃ x.1 hxy).trans hx₂
  -- update root or x parent
  have hrepl := replaceChild_eq s m₃ d (some y.1) h (root_branch ..)
    ((hoff₃ _ hH.2.2.1).trans (hoff₂ _ hH.2.2.2.1 hH.1))
    ((hoff₃ _ hP.2.2.1).trans (hoff₂ _ hP.2.2.2.1 hP.1)) hx₃ (parent_mkNode)
  obtain ⟨m₄, hm₄⟩ : ∃ k, k = m₃.update P (setHole c (some y.1)) := ⟨_, rfl⟩
  have hoff₄ : ∀ b, b ≠ P → m₄.cell b = m₃.cell b := fun b hb => by
    rw [hm₄, ObjectHeap.cell_update_ne hb]
  have hy₄ := (hoff₄ y.1 (Ne.symm hP.2.2.1)).trans hy₃
  have hx₄ := (hoff₄ x.1 (Ne.symm hP.1)).trans hx₃
  -- update link between x and y
  obtain ⟨m₅, hm₅⟩ : ∃ k, k = m₄.update y.1 fun n => n.setChild d (some x.1) := ⟨_, rfl⟩
  have hoff₅ : ∀ b, b ≠ y.1 → m₅.cell b = m₄.cell b := fun b hb => by
    rw [hm₅, ObjectHeap.cell_update_ne hb]
  have hy₅ : m₅.cell y.1 = some (mkNode d ry (some P) (some x.1) (root yo)
      (yi.size + yo.size + 1) y.2) := by
    rw [hm₅, ObjectHeap.cell_update_self hy₄, setChild_mkNode]
  have hx₅ := (hoff₅ x.1 hxy).trans hx₄
  obtain ⟨m₆, hm₆⟩ : ∃ k, k = m₅.update x.1 fun n => { n with parent := some y.1 } := ⟨_, rfl⟩
  have hoff₆ : ∀ b, b ≠ x.1 → m₆.cell b = m₅.cell b := fun b hb => by
    rw [hm₆, ObjectHeap.cell_update_ne hb]
  have hx₆ : m₆.cell x.1 = some (mkNode d rx (some y.1) (root z) (root yi)
      (z.size + (RBTree.branch d ry y yi yo).size + 1) x.2) := by
    rw [hm₆, ObjectHeap.cell_update_self hx₅, setParent_mkNode]
  have hy₆ := (hoff₆ y.1 (Ne.symm hxy)).trans hy₅
  have hoff : ∀ b, b ≠ x.1 → b ≠ y.1 → b ≠ P → m₆.cell b = m₂.cell b := fun b hx hy hp => by
    rw [hoff₆ b hx, hoff₅ b hy, hoff₄ b hp, hoff₃ b hy]
  have hz₆ : TreeRep m₆ (some x.1) z := hz.congr fun b hb => by
    rw [hoff b (by rintro rfl; exact hxz hb) (by rintro rfl; exact hzd _ hb _ (.inl rfl) rfl)
      (by rintro rfl; exact hP.2.1 hb),
      hoff₂ b (fun h => hzd _ hb _ (.inr (.inl h)) rfl) (by rintro rfl; exact hxz hb)]
  have hyi₆ : TreeRep m₆ (some x.1) yi := hyi₂.congr fun b hb =>
    hoff b (by rintro rfl; exact hxyi hb) (by rintro rfl; exact hyyi hb)
      (by rintro rfl; exact hP.2.2.2.1 hb)
  have hyo₆ : TreeRep m₆ (some y.1) yo := hyo.congr fun b hb => by
    rw [hoff b (by rintro rfl; exact hxyo hb) (by rintro rfl; exact hyyo hb)
      (by rintro rfl; exact hP.2.2.2.2 hb),
      hoff₂ b (fun h => hyio _ h _ hb rfl) (by rintro rfl; exact hxyo hb)]
  -- recount x, then y
  have hperm' : (addrs (.branch d ry y (.branch d rx x z yi) yo)).Perm
      (addrs (.branch d rx x z (.branch d ry y yi yo))) := by
    refine List.Perm.trans ?_ hperm.symm
    refine (addrs_branch_perm ..).trans ?_
    refine (List.Perm.cons _ (List.Perm.append_right _ (addrs_branch_perm ..))).trans ?_
    simp only [List.cons_append, List.append_assoc]
    refine (List.Perm.swap _ _ _).trans (List.Perm.cons _ ?_)
    exact List.perm_middle.symm
  obtain ⟨m₈, hcount, htree, hl₈⟩ := recount_spec
    (hperm'.nodup_iff.mpr hbranch) hx₆ hy₆ hz₆ hyi₆ hyo₆
  have hoff₈ : ∀ b, b ≠ x.1 → b ≠ y.1 → m₈.cell b = m₆.cell b := fun b hbx hby =>
    hl₈.2 b (by simp [hbx, hby])
  refine ⟨m₈, ?_, h.exchange ?_ ?_ ?_ ?_, toList_plug_congr c RBTree.toList_rotate, ?_⟩
  · have e₁ : Memory.setChild m x.1 d.opp (root yi) = _ := ObjectHeap.modify_eq hx
    have e₃ : Memory.setParent m₂ y.1 (some P) = _ := ObjectHeap.modify_eq hy₂
    have e₅ : Memory.setChild m₄ y.1 d (some x.1) = _ := ObjectHeap.modify_eq hy₄
    have e₆ : Memory.setParent m₅ x.1 (some y.1) = _ := ObjectHeap.modify_eq hx₅
    rw [← hm₃] at e₃
    rw [← hm₄] at hrepl
    rw [← hm₅] at e₅
    rw [← hm₆] at e₆
    simp only [RankSet.rotate, hx, Option.bind_eq_bind, Option.bind_some, child_opp_mkNode, hy,
      child_mkNode, e₁, hm₂, parent_mkNode, e₃, hrepl, e₅, e₆]
    exact hcount
  · intro a ha
    rw [mem_addrs_branch, not_or, not_or, mem_addrs_branch, not_or, not_or] at ha
    obtain ⟨hax, -, hay, hayi, -⟩ := ha
    rw [hoff₈ a hax hay, hoff₆ a hax, hoff₅ a hay, root_branch]
    by_cases haP : a = P
    · rw [if_pos haP, haP, hm₄, ObjectHeap.cell_update, if_pos rfl, hoff₃ P hP.2.2.1,
        hoff₂ P hP.2.2.2.1 hP.1]
    · rw [if_neg haP, hoff₄ a haP, hoff₃ a hay, hoff₂ a hayi hax]
  · exact htree
  · simp only [RBTree.size_branch]
    omega
  · exact hperm'
  · refine ⟨?_, fun a ha => ?_⟩
    · rw [hl₈.1, hm₆, ObjectHeap.next_update, hm₅, ObjectHeap.next_update, hm₄,
        ObjectHeap.next_update, hm₃, ObjectHeap.next_update, hl₂.1, ObjectHeap.next_update]
    · simp only [List.mem_cons, mem_addrs_plug, mem_addrs_branch, not_or] at ha
      obtain ⟨haH, hac, hax, -, hay, hayi, -⟩ := ha
      have haP : a ≠ P := by
        rintro rfl
        rcases List.mem_cons.mp (top_mem s.header c) with h' | h'
        · exact haH h'
        · exact hac h'
      rw [hoff₈ a hax hay, hoff a hax hay haP, hoff₂ a hayi hax]

end HeapTree

end Brickred
