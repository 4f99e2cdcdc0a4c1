import Brickred.RankSet.Query

/-!
# Deletion: `eraseNodeFixup`

`eraseNodeFixupSide_spec` is one iteration of the loop, from a heap tree in the
state `EraseInv` at the focus `node_x`: the loop either breaks with a red-black
tree, or goes on from a position nearer to its end. `eraseNodeFixup_spec` runs
the loop and paints the focus.
-/

namespace Brickred

open RedBlack RedBlack.Ctx HeapTree

variable {T : Type} {m : Memory T} {hn : RBTreeNode T} {c : Ctx (Item T)} {t : RBTree (Item T)}

namespace RankSet

variable (s : RankSet T)

section Fixup

variable {d : Dir} {red : Bool} {p q : Item T} {near far : RBTree (Item T)}

/-- Case 4: the sibling takes the parent's place and colour. -/
theorem eraseNodeFixupOuter_spec
    (h : SetRep m s.header hn (plug (⟨d, red, p, .branch d false q near far⟩ :: c) t)) :
    ∃ m', s.eraseNodeFixupOuter d m p.1 q.1 = some m' ∧
      Rearranged m m' s.header hn (plug (⟨d, red, p, .branch d false q near far⟩ :: c) t)
        (plug (⟨d, false, p, near⟩ :: ⟨d, red, q, far.blacken⟩ :: c) t) := by
  have hp := h.cellFrame
  -- w takes p's colour
  have e₀ : ∀ b w, plug (⟨d, b, p, w⟩ :: c) t = plug (⟨d.opp, b, p, t⟩ :: c) w :=
    fun b w => plug_swap ..
  obtain ⟨m₁, hm₁, h₁⟩ := setRed_spec (b := red) (e₀ _ _ ▸ h)
  -- p -> black
  rw [← e₀, ← e₀] at h₁
  obtain ⟨m₂, hm₂, h₂⟩ := setRed_spec (b := false) (c := c) h₁.rep
  -- the far child -> black
  have h₂' : SetRep m₂ s.header hn (plug (⟨d, false, p, .branch d red q near far⟩ :: c) t) := h₂.rep
  have hq₂ := SetRep.cell (e₀ _ _ ▸ h₂')
  have e₂ : ∀ f, plug (⟨d, false, p, .branch d red q near f⟩ :: c) t =
      plug (⟨d.opp, red, q, near⟩ :: ⟨d.opp, false, p, t⟩ :: c) f := fun f => by
    rw [e₀, ← RBTree.branch_opp]
    rfl
  obtain ⟨m₃, hm₃, h₃⟩ := setRedIf_spec (e₂ _ ▸ h₂')
  rw [← e₂, ← e₂] at h₃
  -- rotate on p
  obtain ⟨m₄, hm₄, h₄⟩ := rotate_spec s (c := c) h₃.rep
  -- recount from p
  obtain ⟨m₅, hm₅, h₅⟩ := updateNodeCountToTop_rearranged s
    (c := ⟨d, false, p, near⟩ :: ⟨d, red, q, far.blacken⟩ :: c) (t := t) h₄.rep
  refine ⟨m₅, ?_, ?_⟩
  · rw [top_cons] at hm₅
    simp only [eraseNodeFixupOuter, hp, Option.bind_eq_bind, Option.bind_some, isRed_mkNode, hm₁,
      hm₂, hq₂, child_opp_mkNode, hm₃, hm₄, hm₅]
  · exact (((h₁.trans h₂).trans h₃).trans h₄).trans h₅

/-- What one iteration does: either break, with the focus where it was and all
defects repaired, or go on from a position one step nearer to the end. -/
def SideResult (m : Memory T) (hn : RBTreeNode T) (c : Ctx (Item T)) (t : RBTree (Item T))
    (r : Option (Memory T × Ptr × Addr × Bool)) : Prop :=
  ∃ m' c' t' stop, r = some (m', root t', top s.header c', stop) ∧
    Rearranged m m' s.header hn (plug c t) (plug c' t') ∧
    (stop = true → IsRB (plug c' t'.blacken)) ∧
    (stop = false → EraseInv c' t' ∧
      c'.length + (if t'.isRed then 0 else 1) < c.length + (if t.isRed then 0 else 1))

/-- Cases 2, 3 and 4: the sibling is black. -/
theorem eraseNodeFixupBlack_spec
    (h : SetRep m s.header hn (plug (⟨d, red, p, .branch d false q near far⟩ :: c) t))
    (hi : EraseInv (⟨d, red, p, .branch d false q near far⟩ :: c) t) (ht : t.isRed = false) :
    ∃ m' c' t' stop,
      s.eraseNodeFixupBlack d m (root t) p.1 q.1 = some (m', root t', top s.header c', stop) ∧
      Rearranged m m' s.header hn (plug (⟨d, red, p, .branch d false q near far⟩ :: c) t)
        (plug c' t') ∧
      (stop = true → IsRB (plug c' t'.blacken)) ∧
      (stop = false → c' = c ∧ t' = .branch d red p t (.branch d true q near far) ∧
        EraseInv c' t') := by
  have hp := h.cellFrame
  have e₀ : ∀ w, plug (⟨d, red, p, w⟩ :: c) t = plug (⟨d.opp, red, p, t⟩ :: c) w :=
    fun w => plug_swap ..
  have hq := SetRep.cell (e₀ _ ▸ h)
  have hw := (treeRep_branch.mp (setRep_plug.mp (e₀ _ ▸ h)).2.1).2
  cases hf : far.isRed with
  | true =>
    obtain ⟨m₁, hm₁, h₁⟩ := s.eraseNodeFixupOuter_spec h
    refine ⟨m₁, _, t, true, ?_, h₁, fun _ => ?_, by simp⟩
    · simp [eraseNodeFixupBlack, hq, hw.1.redAt, hw.2.redAt, hf, hm₁]
    · rw [RBTree.blacken_of_not_red ht]
      exact hi.rotateOuter ht hf
  | false =>
    cases hnr : near.isRed with
    | false =>
      obtain ⟨m₁, hm₁, h₁⟩ := setRed_spec (b := true) (e₀ _ ▸ h)
      have hp₁ := SetRep.cellFrame ((e₀ _).symm ▸ h₁.rep)
      refine ⟨m₁, c, .branch d red p t (.branch d true q near far), false, ?_, ?_, by simp,
        fun _ => ⟨rfl, rfl, hi.recolor ht hnr hf⟩⟩
      · simp [eraseNodeFixupBlack, hq, hw.1.redAt, hw.2.redAt, hf, hnr, hm₁, hp₁]
      · rw [← e₀, ← e₀] at h₁
        exact h₁
    | true =>
      obtain ⟨b, x, xi, xo, rfl⟩ := RBTree.exists_branch d hnr
      obtain rfl : b = true := by simpa using hnr
      -- the near child -> black, w -> red
      obtain ⟨m₁, hm₁, h₁⟩ := setRedIf_spec (c := ⟨d, false, q, far⟩ :: ⟨d.opp, red, p, t⟩ :: c)
        (e₀ _ ▸ h)
      rw [RBTree.blacken_branch] at h₁
      obtain ⟨m₂, hm₂, h₂⟩ := setRed_spec (b := true) (c := ⟨d.opp, red, p, t⟩ :: c) h₁.rep
      -- rotate on w
      have e₂ : RBTree.branch d true q (.branch d false x xi xo) far =
          .branch d.opp true q far (.branch d.opp false x xo xi) := by
        rw [RBTree.branch_opp, RBTree.branch_opp]
      obtain ⟨m₃, hm₃, h₃⟩ := rotate_spec s (e₂ ▸ h₂.rep)
      have e₃ : RBTree.branch d.opp false x (.branch d.opp true q far xo) xi =
          .branch d false x xi (.branch d true q xo far) := by
        rw [RBTree.branch_opp, RBTree.branch_opp]
      rw [← e₂, e₃] at h₃
      have h₁₃ : Rearranged m m₃ s.header hn
          (plug (⟨d.opp, red, p, t⟩ :: c) (.branch d false q (.branch d true x xi xo) far))
          (plug (⟨d.opp, red, p, t⟩ :: c) (.branch d false x xi (.branch d true q xo far))) :=
        (h₁.trans h₂).trans h₃
      rw [← e₀, ← e₀] at h₁₃
      have hp₃ := h₁₃.rep.cellFrame
      obtain ⟨m₄, hm₄, h₄⟩ := s.eraseNodeFixupOuter_spec h₁₃.rep
      refine ⟨m₄, _, t, true, ?_, h₁₃.trans h₄, fun _ => ?_, by simp⟩
      · rw [root_branch] at hm₁
        have hred := hw.1.redAt
        rw [root_branch, RBTree.isRed_branch] at hred
        simp [eraseNodeFixupBlack, hq, hred, hw.2.redAt, hf, hm₁, hm₂, hm₃, hp₃, hm₄]
      · rw [RBTree.blacken_of_not_red ht]
        exact (hi.rotateInner hf).rotateOuter ht (by simp)

/-- One iteration, for a sibling of either colour. -/
theorem eraseNodeFixupSide_spec {f : Frame (Item T)}
    (h : SetRep m s.header hn (plug (f :: c) t)) (hi : EraseInv (f :: c) t)
    (ht : t.isRed = false) :
    s.SideResult m hn (f :: c) t (s.eraseNodeFixupSide f.dir m (root t) f.item.1) := by
  obtain ⟨d, red, p, w⟩ := f
  obtain ⟨wr, q, near, far, rfl⟩ := hi.sibling
  have hp := h.cellFrame
  have e₀ : ∀ w, plug (⟨d, red, p, w⟩ :: c) t = plug (⟨d.opp, red, p, t⟩ :: c) w :=
    fun w => plug_swap ..
  have hq := SetRep.cell (e₀ _ ▸ h)
  cases wr with
  | false =>
    obtain ⟨m₁, c₁, t₁, stop, e₁, h₁, hstop, hgo⟩ := s.eraseNodeFixupBlack_spec h hi ht
    refine ⟨m₁, c₁, t₁, stop, ?_, h₁, hstop, fun hs => ?_⟩
    · simp [eraseNodeFixupSide, hp, hq, e₁]
    · obtain ⟨rfl, rfl, hi₁⟩ := hgo hs
      refine ⟨hi₁, ?_⟩
      simp only [ht, List.length_cons, Bool.false_eq_true, if_false]
      split <;> omega
  | true =>
    obtain ⟨rfl, hnr, hi'⟩ := hi.redSibling
    -- w -> black, p -> red
    obtain ⟨m₁, hm₁, h₁⟩ := setRed_spec (b := false) (e₀ _ ▸ h)
    rw [← e₀, ← e₀] at h₁
    obtain ⟨m₂, hm₂, h₂⟩ := setRed_spec (b := true) (c := c) h₁.rep
    -- rotate on p
    obtain ⟨m₃, hm₃, h₃⟩ := rotate_spec s (c := c) h₂.rep
    have h₁₃ := (h₁.trans h₂).trans h₃
    have h₃' : SetRep m₃ s.header hn (plug (⟨d, true, p, near⟩ :: ⟨d, false, q, far⟩ :: c) t) :=
      h₃.rep
    have hp₃ := h₃'.cellFrame
    obtain ⟨wr, q', near', far', rfl⟩ := hi'.sibling
    obtain rfl : wr = false := by simpa using hnr
    obtain ⟨m₄, c₁, t₁, stop, e₁, h₄, hstop, hgo⟩ := s.eraseNodeFixupBlack_spec h₃' hi' ht
    refine ⟨m₄, c₁, t₁, stop, ?_, h₁₃.trans h₄, hstop, fun hs => ?_⟩
    · simp [eraseNodeFixupSide, hp, hq, hm₁, hm₂, hm₃, hp₃, e₁]
    · obtain ⟨rfl, rfl, hi₁⟩ := hgo hs
      refine ⟨hi₁, ?_⟩
      simp [ht]

end Fixup

/-- The side on which an iteration of `eraseNodeFixup` finds `node_x` below its parent. A
null `node_x` is told from the sibling too, which is not null. -/
def fixupSide (p : RBTreeNode T) (nodeX : Ptr) : Dir := if p.left = nodeX then .left else .right

theorem fixupSide_eq {f : Frame (Item T)} (h : SetRep m s.header hn (plug (f :: c) t))
    (hi : EraseInv (f :: c) t) (p : Ptr) (n : Nat) :
    fixupSide (mkNode f.dir f.red p (root t) (root f.sib) n f.item.2) (root t) = f.dir := by
  refine side_eq ?_ p n
  obtain ⟨d, red, a, w⟩ := f
  obtain ⟨wr, q, near, far, rfl⟩ := hi.sibling
  rw [root_branch]
  exact fun he => h.root_ne_sib he.symm (root_branch ..)

/-- The loop ends at a focus which, painted black, completes a red-black tree. -/
theorem eraseNodeFixupLoop_spec : ∀ {fuel : Nat} {m : Memory T} {c : Ctx (Item T)}
    {t : RBTree (Item T)}, SetRep m s.header hn (plug c t) → EraseInv c t →
    c.length + (if t.isRed then 0 else 1) < fuel →
    ∃ m' c' t', s.eraseNodeFixupLoop fuel m (root t) (top s.header c) = some (m', root t') ∧
      Rearranged m m' s.header hn (plug c t) (plug c' t') ∧ IsRB (plug c' t'.blacken)
  | fuel + 1, m, [], t, h, hi, _ => by
    refine ⟨m, [], t, ?_, .refl h, hi.root⟩
    have hh := h.headerCell
    rw [show plug [] t = t from rfl] at hh
    simp [eraseNodeFixupLoop, hh]
  | fuel + 1, m, f :: c, t, h, hi, hfuel => by
    have hh := h.headerCell
    have hne := h.root_plug_ne
    cases ht : t.isRed with
    | true =>
      refine ⟨m, f :: c, t, ?_, .refl h, hi.redFocus ht⟩
      simp [eraseNodeFixupLoop, hh, h.redAt, ht]
    | false =>
      have hf := h.cellFrame
      have hside := s.fixupSide_eq h hi (some (top s.header c)) (t.size + f.sib.size + 1)
      unfold fixupSide at hside
      obtain ⟨m₁, c₁, t₁, stop, e₁, h₁, hstop, hgo⟩ := s.eraseNodeFixupSide_spec h hi ht
      cases stop with
      | true =>
        refine ⟨m₁, c₁, t₁, ?_, h₁, hstop rfl⟩
        simp [eraseNodeFixupLoop, hh, hne, h.redAt, ht, hf, hside, e₁]
      | false =>
        obtain ⟨hi₁, hlt⟩ := hgo rfl
        have hfuel₁ : c₁.length + (if t₁.isRed then 0 else 1) < fuel := by
          rw [ht] at hlt hfuel
          omega
        obtain ⟨m₂, c₂, t₂, e₂, h₂, hrb⟩ := eraseNodeFixupLoop_spec h₁.rep hi₁ hfuel₁
        refine ⟨m₂, c₂, t₂, ?_, h₁.trans h₂, hrb⟩
        simp [eraseNodeFixupLoop, hh, hne, h.redAt, ht, hf, hside, e₁, e₂]

/-- `eraseNodeFixup` restores the red-black property when a black node has been
taken out above the focus. -/
theorem eraseNodeFixup_spec (h : SetRep m s.header hn (plug c t)) (hi : EraseInv c t) :
    ∃ m' t', s.eraseNodeFixup m (root t) (top s.header c) = some m' ∧ IsRB t' ∧
      Rearranged m m' s.header hn (plug c t) t' := by
  have hfuel : c.length + (if t.isRed then 0 else 1) < m.fuel := by
    have h₁ := length_le_size_plug c t
    have h₂ := h.size_lt_next
    rw [Memory.fuel]
    split <;> omega
  obtain ⟨m₁, c₁, t₁, e₁, h₁, hrb⟩ := s.eraseNodeFixupLoop_spec h hi hfuel
  obtain ⟨m₂, e₂, h₂⟩ := setRedIf_spec h₁.rep
  refine ⟨m₂, _, ?_, hrb, h₁.trans h₂⟩
  simp only [eraseNodeFixup, e₁, Option.bind_eq_bind, Option.bind_some]
  exact e₂

/-! ## The iterations -/

/-- The condition of the loop of `eraseNodeFixup`. -/
def FixupGoes (m : Memory T) (nodeX : Ptr) : Prop :=
  (∃ h, m.cell s.header = some h ∧ h.parent ≠ nodeX) ∧ m.redAt nodeX = some false

/-- The loop comes from one memory and position to another in whole iterations. -/
inductive FixupIterates : Memory T → Ptr → Addr → Memory T → Ptr → Addr → Prop
  | refl {m x p} : FixupIterates m x p m x p
  | next {m x p m₁ x₁ p₁ n m₂ x₂ p₂} (h : FixupIterates m x p m₁ x₁ p₁) (hgo : s.FixupGoes m₁ x₁)
      (hp : m₁.cell p₁ = some n)
      (hside : s.eraseNodeFixupSide (fixupSide n x₁) m₁ x₁ p₁ = some (m₂, x₂, p₂, false)) :
      FixupIterates m x p m₂ x₂ p₂

/-- Where the loop goes on there is a node above a black focus, which an iteration repairs
or passes on. -/
theorem eraseNodeFixupSide_goes (h : SetRep m s.header hn (plug c t)) (hi : EraseInv c t)
    (hgo : s.FixupGoes m (root t)) :
    ∃ n, m.cell (top s.header c) = some n ∧ (∃ w, n.child (fixupSide n (root t)).opp = some w ∧
        (m.cell w).isSome) ∧
      s.SideResult m hn c t (s.eraseNodeFixupSide (fixupSide n (root t)) m (root t) (top s.header c)) := by
  obtain ⟨⟨n, hn, hne⟩, hblack⟩ := hgo
  cases c with
  | nil =>
    rw [h.headerCell] at hn
    cases hn
    exact absurd rfl hne
  | cons f c =>
    have ht : t.isRed = false := Option.some.inj (h.redAt.symm.trans hblack)
    refine ⟨_, h.cellFrame, ?_, ?_⟩
    · rw [s.fixupSide_eq h hi, child_opp_mkNode]
      obtain ⟨d, red, p, w⟩ := f
      obtain ⟨wr, q, near, far, rfl⟩ := hi.sibling
      have hw : plug (⟨d, red, p, .branch d wr q near far⟩ :: c) t =
          plug (⟨d.opp, red, p, t⟩ :: c) (.branch d wr q near far) := plug_swap ..
      exact ⟨q.1, root_branch .., by rw [SetRep.cell (hw ▸ h)]; rfl⟩
    · rw [s.fixupSide_eq h hi]
      exact s.eraseNodeFixupSide_spec h hi ht

/-- Every iteration keeps the invariant of the loop. -/
theorem FixupIterates.inv {m₁ : Memory T} {x : Ptr} {x₁ : Ptr} {p p₁ : Addr}
    (h : s.FixupIterates m x p m₁ x₁ p₁) :
    ∀ {c t}, x = root t → p = top s.header c → SetRep m s.header hn (plug c t) → EraseInv c t →
      ∃ c₁ t₁, x₁ = root t₁ ∧ p₁ = top s.header c₁ ∧ SetRep m₁ s.header hn (plug c₁ t₁) ∧
        EraseInv c₁ t₁ := by
  induction h with
  | refl =>
    intro c t hx hp hrep hi
    exact ⟨c, t, hx, hp, hrep, hi⟩
  | next _ hgo hp hside ih =>
    intro c t hx hp' hrep hi
    obtain ⟨c₁, t₁, rfl, rfl, hrep₁, hi₁⟩ := ih hx hp' hrep hi
    obtain ⟨n, hn, -, m₂, c₂, t₂, stop, e, h₂, -, hstop⟩ := s.eraseNodeFixupSide_goes hrep₁ hi₁ hgo
    cases hn.symm.trans hp
    cases e.symm.trans hside
    exact ⟨c₂, t₂, rfl, rfl, h₂.rep, (hstop rfl).1⟩

/-- `eraseNodeFixup` returns, and what it leaves is a red-black tree with the same
sequence and the right counts. In each iteration the sibling is a node, and nothing is
undefined, neither the rotations nor the repainting. -/
theorem eraseNodeFixup_restores (h : SetRep m s.header hn (plug c t)) (hi : EraseInv c t) :
    (∃ m' t', s.eraseNodeFixup m (root t) (top s.header c) = some m' ∧
      SetRep m' s.header hn t' ∧ IsRB t' ∧ t'.toList = (plug c t).toList) ∧
    ∀ m₁ x₁ p₁, s.FixupIterates m (root t) (top s.header c) m₁ x₁ p₁ → s.FixupGoes m₁ x₁ →
      ∃ n w, m₁.cell p₁ = some n ∧ n.child (fixupSide n x₁).opp = some w ∧ (m₁.cell w).isSome ∧
        (s.eraseNodeFixupSide (fixupSide n x₁) m₁ x₁ p₁).isSome := by
  constructor
  · obtain ⟨m', t', e, hrb, hre⟩ := s.eraseNodeFixup_spec h hi
    exact ⟨m', t', e, hre.rep, hrb, hre.toList⟩
  · intro m₁ x₁ p₁ hiter hgo
    obtain ⟨c₁, t₁, rfl, rfl, h₁, hi₁⟩ := hiter.inv s rfl rfl h hi
    obtain ⟨n, hn, ⟨w, hw, hcell⟩, m₂, c₂, t₂, stop, e, -⟩ := s.eraseNodeFixupSide_goes h₁ hi₁ hgo
    exact ⟨n, w, hn, hw, hcell, by rw [e]; rfl⟩

/-- A black root that has lost its left child, next to a black right child. -/
def shortMemory : Memory Nat where
  cell
    | 0 => some ⟨true, some 1, some 1, some 2, 2, 0⟩
    | 1 => some ⟨false, some 0, none, some 2, 2, 10⟩
    | 2 => some ⟨false, some 1, none, none, 1, 20⟩
    | _ => none
  next := 3
  fresh a ha := by
    match a with
    | 0 | 1 | 2 => contradiction
    | _ + 3 => rfl

theorem eraseNodeFixup_restores_short :
    ∃ m' t', RankSet.eraseNodeFixup ⟨0, fun a b => decide (a < b)⟩ shortMemory none 1 = some m' ∧
      SetRep m' 0 ⟨true, none, some 1, some 2, 2, 0⟩ t' ∧ IsRB t' ∧
      t'.toList = [(1, 10), (2, 20)] := by
  have hrep : SetRep shortMemory 0 ⟨true, none, some 1, some 2, 2, 0⟩
      (plug [⟨.left, false, (1, 10), .node false .nil (2, 20) .nil⟩] .nil) :=
    ⟨rfl, ⟨rfl, trivial, rfl, trivial, trivial⟩, by decide⟩
  have hi : EraseInv [⟨.left, false, ((1, 10) : Item Nat), .node false .nil (2, 20) .nil⟩] .nil :=
    ⟨trivial, ⟨nofun, ⟨nofun, trivial, trivial⟩, trivial⟩,
      ⟨0, 2, rfl, ⟨0, rfl, rfl, rfl⟩, rfl⟩, rfl⟩
  exact (eraseNodeFixup_restores ⟨0, fun a b => decide (a < b)⟩ hrep hi).1

end RankSet

end Brickred
