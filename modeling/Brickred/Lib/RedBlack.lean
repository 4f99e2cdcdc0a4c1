import Mathlib.Algebra.Group.Nat.Defs
import Mathlib.Data.Nat.Log
import Mathlib.Tactic.Common

/-!
# Red-black trees seen through a one-hole context

The algebra of coloured binary trees that a bottom-up rebalancing loop needs,
over an arbitrary payload `α`.

- `RBTree α`: coloured binary trees, with `RBTree.toList` (the in-order sequence),
  `RBTree.BlackHeight` and `RBTree.NoRedRed`.
- `Frame α`, `Ctx α`: the path from a position up to the root. `plug c t` puts
  the tree `t` back into the context `c`; each of the three notions above
  splits over `plug` (`toList_plug`, `blackHeight_plug`, `noRedRed_plug`).
- `InsertInv`: the state of an insertion loop — a red focus whose parent may be
  red — with one lemma per repair (`recolor`, `rotateOuter`).
- `EraseInv`: the state of a deletion loop — a focus one black node short —
  with one lemma per repair (`redSibling`, `recolor`, `rotateOuter`).
- `height_le_two_mul_log`: a red-black tree is at most twice as high as the
  logarithm of its size.
-/

namespace RedBlack

universe u

variable {α : Type u}

/-- The two sides of a node. -/
inductive Dir
  | left
  | right
  deriving DecidableEq, Repr

/-- The other side. -/
def Dir.opp : Dir → Dir
  | .left => .right
  | .right => .left

@[simp] theorem Dir.opp_left : Dir.left.opp = .right := rfl

@[simp] theorem Dir.opp_right : Dir.right.opp = .left := rfl

@[simp] theorem Dir.opp_opp (d : Dir) : d.opp.opp = d := by cases d <;> rfl

@[simp] theorem Dir.opp_ne (d : Dir) : d.opp ≠ d := by cases d <;> decide

/-- Coloured binary trees with a payload at every node. -/
inductive RBTree (α : Type u)
  | nil
  | node (red : Bool) (l : RBTree α) (a : α) (r : RBTree α)

namespace RBTree

/-- The node whose child on side `d` is `near` and whose other child is `far`. -/
def branch (d : Dir) (red : Bool) (a : α) (near far : RBTree α) : RBTree α :=
  match d with
  | .left => .node red near a far
  | .right => .node red far a near

theorem branch_opp (d : Dir) (red : Bool) (a : α) (near far : RBTree α) :
    branch d.opp red a near far = branch d red a far near := by cases d <;> rfl

/-- The in-order sequence. -/
def toList : RBTree α → List α
  | .nil => []
  | .node _ l a r => l.toList ++ a :: r.toList

def size : RBTree α → Nat
  | .nil => 0
  | .node _ l _ r => l.size + r.size + 1

/-- The number of nodes on a longest path. -/
def height : RBTree α → Nat
  | .nil => 0
  | .node _ l _ r => max l.height r.height + 1

/-- The colour of the root; a missing node counts as black. -/
def isRed : RBTree α → Bool
  | .nil => false
  | .node red _ _ _ => red

/-- Induction over the two children of a node, told apart by side `d`. -/
@[elab_as_elim]
theorem branchInduction (d : Dir) {motive : RBTree α → Prop} (nil : motive .nil)
    (branch : ∀ red a near far, motive near → motive far → motive (branch d red a near far)) :
    ∀ t, motive t
  | .nil => nil
  | .node red l a r => by
    have hl := branchInduction d nil branch l
    have hr := branchInduction d nil branch r
    cases d with
    | left => exact branch red a l r hl hr
    | right => exact branch red a r l hr hl

/-- A red tree is a node, with its children told apart by side `d`. -/
theorem exists_branch (d : Dir) {t : RBTree α} (h : t.isRed = true) :
    ∃ red a near far, t = branch d red a near far := by
  induction t using branchInduction d with
  | nil => cases h
  | branch red a near far _ _ => exact ⟨red, a, near, far, rfl⟩

/-- Paint the root black. -/
def blacken : RBTree α → RBTree α
  | .nil => .nil
  | .node _ l a r => .node false l a r

/-- What a node adds to the black height of the paths through it. -/
def weight (red : Bool) : Nat := if red then 0 else 1

/-- Every path from the root to a missing child meets `n` black nodes. -/
def BlackHeight : RBTree α → Nat → Prop
  | .nil, n => n = 0
  | .node red l _ r, n => ∃ m, l.BlackHeight m ∧ r.BlackHeight m ∧ n = m + weight red

/-- No red node has a red child. -/
def NoRedRed : RBTree α → Prop
  | .nil => True
  | .node red l _ r =>
    (red = true → l.isRed = false ∧ r.isRed = false) ∧ l.NoRedRed ∧ r.NoRedRed

@[simp] theorem weight_true : weight true = 0 := rfl

@[simp] theorem weight_false : weight false = 1 := rfl

@[simp] theorem toList_length : ∀ t : RBTree α, t.toList.length = t.size
  | .nil => rfl
  | .node _ l _ r => by
    simp [toList, size, toList_length l, toList_length r]
    omega

@[simp] theorem size_branch (d : Dir) (red : Bool) (a : α) (near far : RBTree α) :
    (branch d red a near far).size = near.size + far.size + 1 := by
  cases d <;> simp [branch, size, Nat.add_comm]

@[simp] theorem height_branch (d : Dir) (red : Bool) (a : α) (near far : RBTree α) :
    (branch d red a near far).height = max near.height far.height + 1 := by
  cases d <;> simp [branch, height, Nat.max_comm]

theorem toList_branch_congr {d : Dir} {red red' : Bool} {a : α} {near near' far far' : RBTree α}
    (hn : near.toList = near'.toList) (hf : far.toList = far'.toList) :
    (branch d red a near far).toList = (branch d red' a near' far').toList := by
  cases d <;> simp [branch, toList, hn, hf]

/-- A rotation keeps the in-order sequence. -/
theorem toList_rotate {d : Dir} {rx ry : Bool} {x y : α} {z yi yo : RBTree α} :
    (branch d ry y (branch d rx x z yi) yo).toList =
      (branch d rx x z (branch d ry y yi yo)).toList := by
  cases d <;> simp [branch, toList]

/-- The in-order sequence read from side `d`. -/
def seq (d : Dir) (t : RBTree α) : List α :=
  match d with
  | .left => t.toList
  | .right => t.toList.reverse

@[simp] theorem seq_nil (d : Dir) : (.nil : RBTree α).seq d = [] := by cases d <;> rfl

@[simp] theorem seq_branch (d : Dir) (red : Bool) (a : α) (near far : RBTree α) :
    (branch d red a near far).seq d = near.seq d ++ a :: far.seq d := by
  cases d <;> simp [branch, seq, toList]

theorem seq_ne_nil {d : Dir} {t : RBTree α} (h : t ≠ .nil) : t.seq d ≠ [] := by
  induction t using branchInduction d with
  | nil => exact absurd rfl h
  | branch red a near far _ _ => simp

@[simp] theorem isRed_branch (d : Dir) (red : Bool) (a : α) (near far : RBTree α) :
    (branch d red a near far).isRed = red := by
  cases d <;> rfl

@[simp] theorem blacken_branch (d : Dir) (red : Bool) (a : α) (near far : RBTree α) :
    (branch d red a near far).blacken = branch d false a near far := by
  cases d <;> rfl

@[simp] theorem isRed_blacken (t : RBTree α) : t.blacken.isRed = false := by
  cases t <;> rfl

@[simp] theorem toList_blacken (t : RBTree α) : t.blacken.toList = t.toList := by
  cases t <;> rfl

@[simp] theorem size_blacken (t : RBTree α) : t.blacken.size = t.size := by
  cases t <;> rfl

theorem blacken_of_not_red {t : RBTree α} (h : t.isRed = false) : t.blacken = t := by
  cases t with
  | nil => rfl
  | node red l a r =>
    have : red = false := h
    rw [this]
    rfl

theorem blackHeight_branch {d : Dir} {red : Bool} {a : α} {near far : RBTree α} {n : Nat} :
    (branch d red a near far).BlackHeight n ↔
      ∃ m, near.BlackHeight m ∧ far.BlackHeight m ∧ n = m + weight red := by
  cases d
  · rfl
  · simp only [branch, BlackHeight]
    constructor
    · rintro ⟨m, h₁, h₂, h⟩
      exact ⟨m, h₂, h₁, h⟩
    · rintro ⟨m, h₁, h₂, h⟩
      exact ⟨m, h₂, h₁, h⟩

theorem noRedRed_branch {d : Dir} {red : Bool} {a : α} {near far : RBTree α} :
    (branch d red a near far).NoRedRed ↔
      (red = true → near.isRed = false ∧ far.isRed = false) ∧
        near.NoRedRed ∧ far.NoRedRed := by
  cases d
  · rfl
  · simp only [branch, NoRedRed]
    tauto

/-- Painting the root of a red tree black adds one to its black height. -/
theorem BlackHeight.blacken_of_red {t : RBTree α} {n : Nat} (h : t.BlackHeight n)
    (hr : t.isRed = true) : t.blacken.BlackHeight (n + 1) := by
  cases t with
  | nil => exact absurd hr (by simp [isRed])
  | node red l a r =>
    obtain ⟨m, hl, hr', rfl⟩ := h
    have : red = true := hr
    subst this
    exact ⟨m, hl, hr', rfl⟩

theorem NoRedRed.blacken {t : RBTree α} (h : t.NoRedRed) : t.blacken.NoRedRed := by
  cases t with
  | nil => trivial
  | node red l a r => exact ⟨fun h' => absurd h' (by simp), h.2⟩

/-! ## The height bound -/

/-- A tree of black height `n` holds at least `2 ^ n - 1` nodes. -/
theorem BlackHeight.pow_le_size : ∀ {t : RBTree α} {n : Nat},
    t.BlackHeight n → 2 ^ n ≤ t.size + 1
  | .nil, _, h => by
    rw [show _ = 0 from h]
    simp [size]
  | .node red l a r, _, ⟨m, hl, hr, rfl⟩ => by
    have ihl := hl.pow_le_size
    have ihr := hr.pow_le_size
    cases red with
    | true => simp only [weight_true, size, Nat.add_zero]; omega
    | false => simp only [weight_false, size, Nat.pow_succ]; omega

/-- Without red-red edges a path alternates, so it is at most twice as long as
its black nodes, plus one when it starts red. -/
theorem NoRedRed.height_le : ∀ {t : RBTree α} {n : Nat}, t.NoRedRed → t.BlackHeight n →
    t.height ≤ 2 * n + (if t.isRed then 1 else 0)
  | .nil, _, _, _ => Nat.zero_le _
  | .node red l a r, _, ⟨hc, hl, hr⟩, ⟨m, bl, br, rfl⟩ => by
    have ihl := hl.height_le bl
    have ihr := hr.height_le br
    cases red with
    | true =>
      rw [(hc rfl).1] at ihl
      rw [(hc rfl).2] at ihr
      simp only [height, isRed, weight_true] at ihl ihr ⊢
      simp at ihl ihr ⊢
      omega
    | false =>
      have ihl' : l.height ≤ 2 * m + 1 := ihl.trans (by split <;> omega)
      have ihr' : r.height ≤ 2 * m + 1 := ihr.trans (by split <;> omega)
      simp only [height, isRed, weight_false]
      omega

/-- **Height bound**: a red-black tree with a black root is at most
`2 * log₂ (size + 1)` high. -/
theorem height_le_two_mul_log {t : RBTree α} {n : Nat} (hb : t.BlackHeight n)
    (hc : t.NoRedRed) (hr : t.isRed = false) :
    t.height ≤ 2 * Nat.log 2 (t.size + 1) := by
  have h₁ : t.height ≤ 2 * n := by simpa [hr] using hc.height_le hb
  have h₂ : n ≤ Nat.log 2 (t.size + 1) :=
    Nat.le_log_of_pow_le (by decide) hb.pow_le_size
  omega

end RBTree

/-! ## Contexts -/

/-- One step of a path to the root: the node above, which side the hole is on,
and the other subtree. -/
structure Frame (α : Type u) where
  dir : Dir
  red : Bool
  item : α
  sib : RBTree α

/-- A path from a hole to the root, innermost frame first. -/
abbrev Ctx (α : Type u) := List (Frame α)

def Frame.fill (f : Frame α) (t : RBTree α) : RBTree α :=
  .branch f.dir f.red f.item t f.sib

/-- Put a tree into the hole. -/
def plug : Ctx α → RBTree α → RBTree α
  | [], t => t
  | f :: c, t => plug c (f.fill t)

/-- Move the focus to the sibling. -/
theorem plug_swap (d : Dir) (red : Bool) (a : α) (s t : RBTree α) (c : Ctx α) :
    plug (⟨d, red, a, s⟩ :: c) t = plug (⟨d.opp, red, a, t⟩ :: c) s := by
  cases d <;> rfl

namespace Ctx

/-- The in-order sequence left of the hole. -/
def before : Ctx α → List α
  | [] => []
  | ⟨.left, _, _, _⟩ :: c => before c
  | ⟨.right, _, a, s⟩ :: c => before c ++ (s.toList ++ [a])

/-- The in-order sequence right of the hole. -/
def after : Ctx α → List α
  | [] => []
  | ⟨.left, _, a, s⟩ :: c => a :: s.toList ++ after c
  | ⟨.right, _, _, _⟩ :: c => after c

/-- The sequence on side `d` of the hole, nearest first. -/
def beyond (d : Dir) : Ctx α → List α
  | [] => []
  | f :: c => if f.dir = d then beyond d c else f.item :: (f.sib.seq d.opp ++ beyond d c)

theorem beyond_right : ∀ c : Ctx α, beyond .right c = after c
  | [] => rfl
  | ⟨.left, _, _, _⟩ :: c => by simp [beyond, after, RBTree.seq, beyond_right c]
  | ⟨.right, _, _, _⟩ :: c => by simp [beyond, after, beyond_right c]

theorem beyond_left : ∀ c : Ctx α, beyond .left c = (before c).reverse
  | [] => rfl
  | ⟨.left, _, _, _⟩ :: c => by simp [beyond, before, beyond_left c]
  | ⟨.right, _, _, _⟩ :: c => by simp [beyond, before, RBTree.seq, beyond_left c]

theorem beyond_append (d : Dir) : ∀ c₁ c₂ : Ctx α,
    beyond d (c₁ ++ c₂) = beyond d c₁ ++ beyond d c₂
  | [], _ => rfl
  | f :: c₁, c₂ => by
    simp only [List.cons_append, beyond, beyond_append d c₁ c₂]
    split <;> simp

theorem before_append (c₁ c₂ : Ctx α) : before (c₁ ++ c₂) = before c₂ ++ before c₁ := by
  have h := beyond_append .left c₁ c₂
  simpa [beyond_left, ← List.reverse_append] using h

theorem after_append (c₁ c₂ : Ctx α) : after (c₁ ++ c₂) = after c₁ ++ after c₂ := by
  have h := beyond_append .right c₁ c₂
  simpa [beyond_right] using h

/-- Nothing lies beyond a hole that is reached on side `d` at every step. -/
theorem beyond_spine {d : Dir} : ∀ {c : Ctx α}, (∀ f ∈ c, f.dir = d) → beyond d c = []
  | [], _ => rfl
  | f :: c, h => by
    rw [beyond, if_pos (h f (by simp)), beyond_spine fun g hg => h g (by simp [hg])]

/-- A hole of black height `n` makes the whole tree one of black height `m`. -/
def BlackHeight : Ctx α → Nat → Nat → Prop
  | [], n, m => n = m
  | f :: c, n, m => f.sib.BlackHeight n ∧ BlackHeight c (n + RBTree.weight f.red) m

/-- No red-red edge in the context, given the colour of what fills the hole. -/
def NoRedRed : Ctx α → Bool → Prop
  | [], _ => True
  | f :: c, b =>
    (f.red = true → b = false ∧ f.sib.isRed = false) ∧ f.sib.NoRedRed ∧ NoRedRed c f.red

/-- The outermost node of the context, if any, is black. -/
def RootBlack : Ctx α → Prop
  | [] => True
  | [f] => f.red = false
  | _ :: g :: c => RootBlack (g :: c)

/-- A black hole is never worse than a red one. -/
theorem NoRedRed.of_red {c : Ctx α} {b : Bool} (h : NoRedRed c b) : NoRedRed c false := by
  cases c with
  | nil => trivial
  | cons f c => exact ⟨fun hf => ⟨rfl, (h.1 hf).2⟩, h.2⟩

theorem RootBlack.tail {f : Frame α} {c : Ctx α} (h : RootBlack (f :: c)) : RootBlack c := by
  cases c with
  | nil => trivial
  | cons g c => exact h

/-- Root blackness only looks at colours. -/
theorem RootBlack.recolor {f g : Frame α} {c : Ctx α} (h : RootBlack (f :: c))
    (hfg : g.red = f.red) : RootBlack (g :: c) := by
  cases c with
  | nil => exact hfg.trans h
  | cons f' c => exact h

end Ctx

open Ctx

theorem size_plug : ∀ (c : Ctx α) (t : RBTree α),
    (plug c t).size = (before c).length + t.size + (after c).length
  | [], t => by simp [plug, before, after]
  | ⟨d, b, a, s⟩ :: c, t => by
    rw [plug, size_plug c, Frame.fill, RBTree.size_branch]
    cases d <;> simp [before, after] <;> omega

theorem Ctx.length_le : ∀ c : Ctx α, c.length ≤ (before c).length + (after c).length
  | [] => Nat.zero_le _
  | ⟨d, b, a, s⟩ :: c => by
    have hc := Ctx.length_le c
    cases d <;> simp [before, after] <;> omega

/-- A path has no more nodes than the tree it runs through. -/
theorem length_le_size_plug (c : Ctx α) (t : RBTree α) : c.length ≤ (plug c t).size := by
  have hc := Ctx.length_le c
  rw [size_plug]
  omega

/-- The in-order sequence of a plugged tree. -/
theorem toList_plug : ∀ (c : Ctx α) (t : RBTree α),
    (plug c t).toList = before c ++ t.toList ++ after c
  | [], t => by simp [plug, before, after]
  | ⟨d, b, a, s⟩ :: c, t => by
    rw [plug, toList_plug c, Frame.fill]
    cases d <;> simp [before, after, RBTree.branch, RBTree.toList]

theorem plug_append : ∀ (c₁ c₂ : Ctx α) (t : RBTree α), plug (c₁ ++ c₂) t = plug c₂ (plug c₁ t)
  | [], _, _ => rfl
  | f :: c₁, c₂, t => plug_append c₁ c₂ (f.fill t)

/-- The sequence of a plugged tree, read from side `d`. -/
theorem seq_plug (d : Dir) (c : Ctx α) (t : RBTree α) :
    (plug c t).seq d = (beyond d c).reverse ++ (t.seq d ++ beyond d.opp c) := by
  cases d <;> simp [RBTree.seq, toList_plug, beyond_right, beyond_left]

/-- Every item of the sequence sits at a position of the tree. -/
theorem exists_plug_of_split : ∀ {t : RBTree α} {x : α} {L R : List α}, t.toList = L ++ x :: R →
    ∃ c red l r, t = plug c (.node red l x r) ∧ before c ++ l.toList = L ∧
      r.toList ++ after c = R
  | .nil, x, L, R, h => by simp [RBTree.toList] at h
  | .node red l a r, x, L, R, h => by
    rw [RBTree.toList] at h
    obtain ⟨M, hL, hR⟩ | ⟨M, hL, hR⟩ := List.append_eq_append_iff.mp h
    · -- the item is the root or right of it
      cases M with
      | nil =>
        obtain ⟨rfl, rfl⟩ : a = x ∧ r.toList = R := by simpa using hR
        exact ⟨[], red, l, r, rfl, by simpa [before] using hL.symm, by simp [after]⟩
      | cons b M =>
        obtain ⟨rfl, hr⟩ : a = b ∧ r.toList = M ++ x :: R := by simpa using hR
        obtain ⟨c, red', l', r', rfl, hb, ha⟩ := exists_plug_of_split hr
        refine ⟨c ++ [⟨.right, red, a, l⟩], red', l', r', ?_, ?_, ?_⟩
        · rw [plug_append]
          rfl
        · rw [before_append, List.append_assoc, hb, hL]
          simp [before]
        · rw [after_append, ← List.append_assoc, ha]
          simp [after]
    · cases M with
      | nil =>
        obtain ⟨rfl, rfl⟩ : x = a ∧ R = r.toList := by simpa using hR
        exact ⟨[], red, l, r, rfl, by simpa [before] using hL, by simp [after]⟩
      | cons b M =>
        obtain ⟨rfl, rfl⟩ : x = b ∧ R = M ++ a :: r.toList := by simpa using hR
        obtain ⟨c, red', l', r', rfl, hb, ha⟩ := exists_plug_of_split hL
        refine ⟨c ++ [⟨.left, red, a, r⟩], red', l', r', ?_, ?_, ?_⟩
        · rw [plug_append]
          rfl
        · rw [before_append]
          simpa [before] using hb
        · rw [after_append, ← List.append_assoc, ha]
          simp [after]

/-- The spine of a nonempty tree on side `d` ends at a node without a child there. -/
theorem exists_spine (d : Dir) (t : RBTree α) (ht : t ≠ .nil) :
    ∃ c red x far, t = plug c (.branch d red x .nil far) ∧ ∀ f ∈ c, f.dir = d := by
  induction t using RBTree.branchInduction d with
  | nil => exact absurd rfl ht
  | branch red a near far ih _ =>
    by_cases hn : near = .nil
    · exact ⟨[], red, a, far, by rw [hn]; rfl, by simp⟩
    · obtain ⟨c, red', x, far', rfl, hc⟩ := ih hn
      refine ⟨c ++ [⟨d, red, a, far⟩], red', x, far', by rw [plug_append]; rfl, ?_⟩
      intro f hf
      rcases List.mem_append.mp hf with hf | hf
      · exact hc f hf
      · rw [List.mem_singleton.mp hf]

/-- Exchanging the focus for a tree with the same in-order sequence. -/
theorem toList_plug_congr {t t' : RBTree α} (c : Ctx α) (h : t.toList = t'.toList) :
    (plug c t).toList = (plug c t').toList := by
  rw [toList_plug, toList_plug, h]

theorem blackHeight_plug : ∀ {c : Ctx α} {t : RBTree α} {m : Nat},
    (plug c t).BlackHeight m ↔ ∃ n, t.BlackHeight n ∧ BlackHeight c n m
  | [], t, m => by
    refine ⟨fun h => ⟨m, h, rfl⟩, ?_⟩
    rintro ⟨n, h, rfl⟩
    exact h
  | f :: c, t, m => by
    rw [plug, blackHeight_plug (c := c), Frame.fill]
    constructor
    · rintro ⟨n, h, hc⟩
      obtain ⟨k, ht, hs, rfl⟩ := RBTree.blackHeight_branch.mp h
      exact ⟨k, ht, hs, hc⟩
    · rintro ⟨n, ht, hs, hc⟩
      exact ⟨_, RBTree.blackHeight_branch.mpr ⟨n, ht, hs, rfl⟩, hc⟩

theorem noRedRed_plug : ∀ {c : Ctx α} {t : RBTree α},
    (plug c t).NoRedRed ↔ t.NoRedRed ∧ NoRedRed c t.isRed
  | [], t => by simp [plug, NoRedRed]
  | f :: c, t => by
    rw [plug, noRedRed_plug (c := c), Frame.fill, RBTree.noRedRed_branch, RBTree.isRed_branch,
      NoRedRed]
    tauto

/-- A plugged tree has a black root as soon as its context and, for an empty
context, the tree itself have one. -/
theorem isRed_plug : ∀ {c : Ctx α} {t : RBTree α},
    (plug c t).isRed = false ↔ RootBlack c ∧ (c = [] → t.isRed = false)
  | [], t => by simp [plug, RootBlack]
  | [f], t => by simp [plug, RootBlack, Frame.fill]
  | f :: g :: c, t => by
    rw [plug, isRed_plug (c := g :: c)]
    simp [RootBlack]

/-! ## The red-black property -/

/-- A red-black tree: black root, no red-red edge, uniform black height. -/
structure IsRB (t : RBTree α) : Prop where
  rootBlack : t.isRed = false
  noRedRed : t.NoRedRed
  blackHeight : ∃ n, t.BlackHeight n

theorem isRB_nil : IsRB (.nil : RBTree α) := ⟨rfl, trivial, 0, rfl⟩

theorem isRB_plug {c : Ctx α} {t : RBTree α} {n m : Nat} (ht : t.NoRedRed)
    (hb : t.BlackHeight n) (hc : NoRedRed c t.isRed) (hm : BlackHeight c n m)
    (hr : RootBlack c) (h0 : c = [] → t.isRed = false) : IsRB (plug c t) where
  rootBlack := isRed_plug.mpr ⟨hr, h0⟩
  noRedRed := noRedRed_plug.mpr ⟨ht, hc⟩
  blackHeight := ⟨m, blackHeight_plug.mpr ⟨n, hb, hm⟩⟩

/-- The items play no part. -/
theorem IsRB.rename {c₁ c₂ : Ctx α} {d : Dir} {red : Bool} {a : α} {s t : RBTree α} (b : α)
    (h : IsRB (plug (c₁ ++ ⟨d, red, a, s⟩ :: c₂) t)) :
    IsRB (plug (c₁ ++ ⟨d, red, b, s⟩ :: c₂) t) := by
  obtain ⟨hr, hc, m, hm⟩ := h
  rw [plug_append, plug, Frame.fill] at hr hc hm
  rw [plug_append, plug, Frame.fill]
  obtain ⟨n, hb, hm⟩ := blackHeight_plug.mp hm
  have hb' : (RBTree.branch d red b (plug c₁ t) s).BlackHeight n :=
    RBTree.blackHeight_branch.mpr (RBTree.blackHeight_branch.mp hb)
  obtain ⟨ht, hc⟩ := noRedRed_plug.mp hc
  have ht' : (RBTree.branch d red b (plug c₁ t) s).NoRedRed :=
    RBTree.noRedRed_branch.mpr (RBTree.noRedRed_branch.mp ht)
  obtain ⟨hr, h0⟩ := isRed_plug.mp hr
  rw [RBTree.isRed_branch] at hc h0
  exact isRB_plug ht' hb' (by rwa [RBTree.isRed_branch]) hm hr (by rwa [RBTree.isRed_branch])

section Map

variable {β : Type u} (f : α → β)

/-- The same shape and colours with other items. -/
def RBTree.map : RBTree α → RBTree β
  | .nil => .nil
  | .node red l a r => .node red l.map (f a) r.map

theorem RBTree.toList_map : ∀ t : RBTree α, (t.map f).toList = t.toList.map f
  | .nil => rfl
  | .node _ l a r => by simp [RBTree.map, RBTree.toList, toList_map l, toList_map r]

theorem RBTree.size_map (t : RBTree α) : (t.map f).size = t.size := by
  rw [← RBTree.toList_length, RBTree.toList_map, List.length_map, RBTree.toList_length]

theorem RBTree.isRed_map (t : RBTree α) : (t.map f).isRed = t.isRed := by
  cases t <;> rfl

theorem RBTree.blackHeight_map : ∀ {t : RBTree α} {n : Nat},
    (t.map f).BlackHeight n ↔ t.BlackHeight n
  | .nil, _ => Iff.rfl
  | .node _ l _ r, n => by
    simp only [RBTree.map, RBTree.BlackHeight, blackHeight_map (t := l), blackHeight_map (t := r)]

theorem RBTree.noRedRed_map : ∀ {t : RBTree α}, (t.map f).NoRedRed ↔ t.NoRedRed
  | .nil => Iff.rfl
  | .node _ l _ r => by
    simp only [RBTree.map, RBTree.NoRedRed, isRed_map, noRedRed_map (t := l), noRedRed_map (t := r)]

/-- Whether a tree is a red-black tree shows in its shape and colours. -/
theorem isRB_map {t : RBTree α} : IsRB (t.map f) ↔ IsRB t := by
  constructor
  · rintro ⟨hr, hc, n, hn⟩
    exact ⟨RBTree.isRed_map f t ▸ hr, (RBTree.noRedRed_map f).mp hc, n, (RBTree.blackHeight_map f).mp hn⟩
  · rintro ⟨hr, hc, n, hn⟩
    exact ⟨(RBTree.isRed_map f t).symm ▸ hr, (RBTree.noRedRed_map f).mpr hc, n,
      (RBTree.blackHeight_map f).mpr hn⟩

end Map

/-! ## Insertion repairs -/

/-- The state of an insertion loop: the focus is a red node; the only possible
defect is a red parent directly above it. -/
structure InsertInv (c : Ctx α) (t : RBTree α) : Prop where
  red : t.isRed = true
  noRedRed : t.NoRedRed
  ctx : NoRedRed c false
  height : ∃ n m, t.BlackHeight n ∧ BlackHeight c n m
  rootBlack : RootBlack c

namespace InsertInv

variable {c : Ctx α} {t near far s u : RBTree α} {d : Dir} {a p g : α} {red : Bool}

/-- No defect left: the parent is black. -/
theorem done {f : Frame α} (h : InsertInv (f :: c) t) (hf : f.red = false) :
    IsRB (plug (f :: c) t) := by
  obtain ⟨n, m, hb, hm⟩ := h.height
  refine isRB_plug h.noRedRed hb ⟨fun h' => absurd (hf.symm.trans h') (by simp), h.ctx.2⟩ hm
    h.rootBlack (by simp)

/-- No defect left: the focus is the root, to be painted black. -/
theorem root (h : InsertInv [] t) : IsRB t.blacken := by
  obtain ⟨n, m, hb, -⟩ := h.height
  exact ⟨by simp, h.noRedRed.blacken, n + 1, hb.blacken_of_red h.red⟩

/-- Any red position of a red-black tree. -/
theorem of_isRB (h : IsRB (plug c t)) (ht : t.isRed = true) : InsertInv c t := by
  obtain ⟨m, hm⟩ := h.blackHeight
  obtain ⟨n, hb, hc⟩ := blackHeight_plug.mp hm
  obtain ⟨htn, hcn⟩ := noRedRed_plug.mp h.noRedRed
  exact ⟨ht, htn, hcn.of_red, ⟨n, m, hb, hc⟩, (isRed_plug.mp h.rootBlack).1⟩

/-- A fresh red leaf in any empty place of a red-black tree. -/
theorem leaf (h : IsRB (plug c .nil)) (d : Dir) (a : α) :
    InsertInv c (.branch d true a .nil .nil) := by
  obtain ⟨m, hm⟩ := h.blackHeight
  obtain ⟨n, rfl, hc⟩ := blackHeight_plug.mp hm
  obtain ⟨-, hcn⟩ := noRedRed_plug.mp h.noRedRed
  refine ⟨by simp, RBTree.noRedRed_branch.mpr ⟨fun _ => ⟨rfl, rfl⟩, trivial, trivial⟩, hcn,
    ⟨0, m, RBTree.blackHeight_branch.mpr ⟨0, rfl, rfl, rfl⟩, hc⟩, (isRed_plug.mp h.rootBlack).1⟩

/-- A red parent is not the root, so there is a grandparent, and it is black. -/
theorem grandparent {f : Frame α} (h : InsertInv (f :: c) t) (hf : f.red = true) :
    ∃ f' c', c = f' :: c' ∧ f'.red = false := by
  cases c with
  | nil => exact absurd (hf.symm.trans h.rootBlack) (by simp)
  | cons f' c' =>
    refine ⟨f', c', rfl, ?_⟩
    have h₂ := h.ctx.2.2
    rw [hf] at h₂
    cases hr : f'.red with
    | false => rfl
    | true => exact absurd (h₂.1 hr).1 (by simp)

/-- Case 1, red uncle: push the blackness of the grandparent down. -/
theorem recolor {d' : Dir} (h : InsertInv (⟨d, true, p, s⟩ :: ⟨d', false, g, u⟩ :: c) t)
    (hu : u.isRed = true) :
    InsertInv c (.branch d' true g (.branch d false p t s) u.blacken) := by
  obtain ⟨n, m, hb, hs, hu', hm⟩ := h.height
  obtain ⟨hps, hsn, -, hun, hc⟩ := h.ctx
  refine ⟨by simp, ?_, hc, ⟨n + 1, m, ?_, by simpa using hm⟩, h.rootBlack.tail.tail⟩
  · refine RBTree.noRedRed_branch.mpr ⟨fun _ => by simp, ?_, hun.blacken⟩
    exact RBTree.noRedRed_branch.mpr ⟨by simp, h.noRedRed, hsn⟩
  · refine RBTree.blackHeight_branch.mpr ⟨n + 1, ?_, ?_, rfl⟩
    · exact RBTree.blackHeight_branch.mpr ⟨n, hb, hs, rfl⟩
    · exact RBTree.BlackHeight.blacken_of_red (by simpa using hu') hu

/-- Case 3, black uncle, focus on the outer side: one rotation finishes. -/
theorem rotateOuter (h : InsertInv (⟨d, true, p, s⟩ :: ⟨d, false, g, u⟩ :: c) t)
    (hu : u.isRed = false) :
    IsRB (plug c (.branch d false p t (.branch d true g s u))) := by
  obtain ⟨n, m, hb, hs, hu', hm⟩ := h.height
  obtain ⟨hps, hsn, -, hun, hc⟩ := h.ctx
  have hi : (RBTree.branch d true g s u).NoRedRed :=
    RBTree.noRedRed_branch.mpr ⟨fun _ => ⟨(hps rfl).2, hu⟩, hsn, hun⟩
  have hib : (RBTree.branch d true g s u).BlackHeight n :=
    RBTree.blackHeight_branch.mpr ⟨n, hs, by simpa using hu', rfl⟩
  refine isRB_plug (n := n + 1) (m := m) ?_ ?_ ?_ (by simpa using hm) h.rootBlack.tail.tail
    (by simp)
  · exact RBTree.noRedRed_branch.mpr ⟨by simp, h.noRedRed, hi⟩
  · exact RBTree.blackHeight_branch.mpr ⟨n, hb, hib, rfl⟩
  · simpa using hc

/-- Case 2, focus on the inner side: rotating the parent gives case 3. -/
theorem rotateInner {x : α} {xi xo : RBTree α}
    (h : InsertInv (⟨d.opp, true, p, s⟩ :: ⟨d, false, g, u⟩ :: c) (.branch d.opp true x xo xi)) :
    InsertInv (⟨d, true, x, xo⟩ :: ⟨d, false, g, u⟩ :: c) (.branch d true p s xi) := by
  obtain ⟨n, m, hb, hs, hu, hm⟩ := h.height
  obtain ⟨k, hxo, hxi, hk⟩ := RBTree.blackHeight_branch.mp hb
  obtain ⟨hred, hno, hni⟩ := RBTree.noRedRed_branch.mp h.noRedRed
  obtain ⟨hps, hsn, -, hun, hc⟩ := h.ctx
  simp only [RBTree.weight_true, Nat.add_zero] at hk
  subst hk
  refine ⟨by simp, ?_, ?_, ⟨n, m, ?_, hxo, hu, hm⟩, h.rootBlack⟩
  · exact RBTree.noRedRed_branch.mpr ⟨fun _ => ⟨(hps rfl).2, (hred rfl).2⟩, hsn, hni⟩
  · exact ⟨fun _ => ⟨rfl, (hred rfl).1⟩, hno, by simp, hun, hc⟩
  · exact RBTree.blackHeight_branch.mpr ⟨n, hs, hxi, rfl⟩

end InsertInv

/-! ## Deletion repairs -/

/-- The state of a deletion loop: every path through the focus is one black
node short, and a red focus may stand at the root or under a red parent. -/
structure EraseInv (c : Ctx α) (t : RBTree α) : Prop where
  noRedRed : t.blacken.NoRedRed
  ctx : NoRedRed c false
  height : ∃ n m, t.BlackHeight n ∧ BlackHeight c (n + 1) m
  rootBlack : RootBlack c

namespace EraseInv

variable {c : Ctx α} {t near far w : RBTree α} {d : Dir} {p q : α} {red : Bool}

/-- Taking out a black node with one child leaves the child one black node short. -/
theorem of_isRB (h : IsRB (plug c (.branch d false p .nil t))) : EraseInv c t := by
  obtain ⟨m, hm⟩ := h.blackHeight
  obtain ⟨n, hb, hc⟩ := blackHeight_plug.mp hm
  obtain ⟨k, rfl, ht, rfl⟩ := RBTree.blackHeight_branch.mp hb
  obtain ⟨htn, hcn⟩ := noRedRed_plug.mp h.noRedRed
  exact ⟨(RBTree.noRedRed_branch.mp htn).2.2.blacken, hcn.of_red, ⟨0, m, ht, hc⟩,
    (isRed_plug.mp h.rootBlack).1⟩

/-- Taking out a red node with one child needs no repair. -/
theorem isRB_of_red (h : IsRB (plug c (.branch d true p .nil t))) : IsRB (plug c t) := by
  obtain ⟨m, hm⟩ := h.blackHeight
  obtain ⟨n, hb, hc⟩ := blackHeight_plug.mp hm
  obtain ⟨k, rfl, ht, rfl⟩ := RBTree.blackHeight_branch.mp hb
  obtain ⟨htn, hcn⟩ := noRedRed_plug.mp h.noRedRed
  obtain ⟨hr, -, htn⟩ := RBTree.noRedRed_branch.mp htn
  refine isRB_plug htn ht ?_ hc (isRed_plug.mp h.rootBlack).1 fun _ => (hr rfl).2
  rw [(hr rfl).2]
  exact hcn.of_red

/-- At the root the missing black node is missing on every path. -/
theorem root (h : EraseInv [] t) : IsRB t.blacken := by
  obtain ⟨n, m, hb, -⟩ := h.height
  refine ⟨by simp, h.noRedRed, ?_⟩
  cases hr : t.isRed with
  | true => exact ⟨n + 1, hb.blacken_of_red hr⟩
  | false =>
    rw [RBTree.blacken_of_not_red hr]
    exact ⟨n, hb⟩

/-- A red focus painted black makes up for the missing node. -/
theorem redFocus (h : EraseInv c t) (hr : t.isRed = true) : IsRB (plug c t.blacken) := by
  obtain ⟨n, m, hb, hm⟩ := h.height
  exact isRB_plug h.noRedRed (hb.blacken_of_red hr) (by simpa using h.ctx) hm h.rootBlack
    (by simp)

/-- The sibling of the short side is an actual node. -/
theorem sibling (h : EraseInv (⟨d, red, p, w⟩ :: c) t) :
    ∃ wr q near far, w = .branch d wr q near far := by
  obtain ⟨n, m, -, hw, -⟩ := h.height
  cases w with
  | nil => exact absurd hw (by simp [RBTree.BlackHeight])
  | node wr l q r =>
    cases d with
    | left => exact ⟨wr, q, l, r, rfl⟩
    | right => exact ⟨wr, q, r, l, rfl⟩

/-- Case 1, red sibling: rotating it above the parent leaves a black sibling. -/
theorem redSibling (h : EraseInv (⟨d, red, p, .branch d true q near far⟩ :: c) t) :
    red = false ∧ near.isRed = false ∧
      EraseInv (⟨d, true, p, near⟩ :: ⟨d, false, q, far⟩ :: c) t := by
  obtain ⟨n, m, hb, hw, hm⟩ := h.height
  obtain ⟨k, hn, hf, hk⟩ := RBTree.blackHeight_branch.mp hw
  obtain ⟨hp, hwn, hc⟩ := h.ctx
  obtain ⟨hq, hnn, hfn⟩ := RBTree.noRedRed_branch.mp hwn
  have hred : red = false := by
    cases red with
    | false => rfl
    | true => exact absurd (hp rfl).2 (by simp)
  subst hred
  simp only [RBTree.weight_true, Nat.add_zero] at hk
  subst hk
  refine ⟨rfl, (hq rfl).1, h.noRedRed, ?_, ⟨n, m, hb, hn, hf, hm⟩, ?_⟩
  · exact ⟨fun _ => ⟨rfl, (hq rfl).1⟩, hnn, by simp, hfn, hc⟩
  · cases c with
    | nil => rfl
    | cons f c => exact h.rootBlack

/-- Case 2, black sibling with black children: repaint it red and move up. -/
theorem recolor (h : EraseInv (⟨d, red, p, .branch d false q near far⟩ :: c) t)
    (ht : t.isRed = false) (hn : near.isRed = false) (hf : far.isRed = false) :
    EraseInv c (.branch d red p t (.branch d true q near far)) := by
  obtain ⟨n, m, hb, hw, hm⟩ := h.height
  obtain ⟨k, hnb, hfb, hk⟩ := RBTree.blackHeight_branch.mp hw
  obtain ⟨hp, hwn, hc⟩ := h.ctx
  obtain ⟨hq, hnn, hfn⟩ := RBTree.noRedRed_branch.mp hwn
  obtain rfl : n = k := by simpa using hk
  refine ⟨?_, hc.of_red, ⟨n + RBTree.weight red, m, ?_, ?_⟩, h.rootBlack.tail⟩
  · rw [RBTree.blacken_branch]
    refine RBTree.noRedRed_branch.mpr ⟨by simp, ?_, ?_⟩
    · simpa [RBTree.blacken_of_not_red ht] using h.noRedRed
    · exact RBTree.noRedRed_branch.mpr ⟨fun _ => ⟨hn, hf⟩, hnn, hfn⟩
  · exact RBTree.blackHeight_branch.mpr
      ⟨n, hb, RBTree.blackHeight_branch.mpr ⟨n, hnb, hfb, rfl⟩, rfl⟩
  · rwa [Nat.add_right_comm] at hm

/-- Case 3, black sibling whose inner child is red: rotating the sibling makes
its outer child red. -/
theorem rotateInner {x : α} {xi xo : RBTree α}
    (h : EraseInv (⟨d, red, p, .branch d false q (.branch d true x xi xo) far⟩ :: c) t)
    (hf : far.isRed = false) :
    EraseInv (⟨d, red, p, .branch d false x xi (.branch d true q xo far)⟩ :: c) t := by
  obtain ⟨n, m, hb, hw, hm⟩ := h.height
  obtain ⟨k, hxb, hfb, hk⟩ := RBTree.blackHeight_branch.mp hw
  obtain ⟨j, hib, hob, hj⟩ := RBTree.blackHeight_branch.mp hxb
  obtain ⟨hp, hwn, hc⟩ := h.ctx
  obtain ⟨-, hxn, hfn⟩ := RBTree.noRedRed_branch.mp hwn
  obtain ⟨hx, hin, hon⟩ := RBTree.noRedRed_branch.mp hxn
  obtain rfl : k = j := by simpa using hj
  obtain rfl : n = k := by simpa using hk
  have hq : (RBTree.branch d true q xo far).BlackHeight n :=
    RBTree.blackHeight_branch.mpr ⟨n, hob, hfb, rfl⟩
  refine ⟨h.noRedRed, ⟨fun hr => ⟨rfl, by simp⟩, ?_, hc⟩, ⟨n, m, hb, ?_, hm⟩,
    h.rootBlack.recolor rfl⟩
  · refine RBTree.noRedRed_branch.mpr ⟨by simp, hin, ?_⟩
    exact RBTree.noRedRed_branch.mpr ⟨fun _ => ⟨(hx rfl).2, hf⟩, hon, hfn⟩
  · exact RBTree.blackHeight_branch.mpr ⟨n, hib, hq, rfl⟩

/-- Case 4, black sibling whose outer child is red: one rotation finishes. -/
theorem rotateOuter (h : EraseInv (⟨d, red, p, .branch d false q near far⟩ :: c) t)
    (ht : t.isRed = false) (hf : far.isRed = true) :
    IsRB (plug c (.branch d red q (.branch d false p t near) far.blacken)) := by
  obtain ⟨n, m, hb, hw, hm⟩ := h.height
  obtain ⟨k, hnb, hfb, hk⟩ := RBTree.blackHeight_branch.mp hw
  obtain ⟨hp, hwn, hc⟩ := h.ctx
  obtain ⟨hq, hnn, hfn⟩ := RBTree.noRedRed_branch.mp hwn
  obtain rfl : n = k := by simpa using hk
  have htn : t.NoRedRed := by simpa [RBTree.blacken_of_not_red ht] using h.noRedRed
  have hpn : (RBTree.branch d false p t near).NoRedRed :=
    RBTree.noRedRed_branch.mpr ⟨by simp, htn, hnn⟩
  have hpb : (RBTree.branch d false p t near).BlackHeight (n + 1) :=
    RBTree.blackHeight_branch.mpr ⟨n, hb, hnb, rfl⟩
  refine isRB_plug (n := n + 1 + RBTree.weight red) (m := m) ?_ ?_ (by simpa using hc) hm
    h.rootBlack.tail ?_
  · exact RBTree.noRedRed_branch.mpr ⟨fun _ => by simp, hpn, hfn.blacken⟩
  · exact RBTree.blackHeight_branch.mpr ⟨n + 1, hpb, hfb.blacken_of_red hf, rfl⟩
  · rintro rfl
    rw [RBTree.isRed_branch]
    exact h.rootBlack

end EraseInv

end RedBlack
