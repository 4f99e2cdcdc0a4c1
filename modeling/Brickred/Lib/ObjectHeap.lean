import Mathlib.Tactic.ByContra

/-!
# A heap of objects

The objects of one type that a program makes with `new`, by address. Addresses
are handed out in increasing order and never used again, so a pointer to a
deleted object stays recognisable: there is nothing at its address. `none`
results are accesses the language leaves undefined.

`Local S` and `Outside S` bound what a computation has written: the frame rules
of a proof about pointers are their composition lemmas.
-/

/-- The objects in memory. Everything from `next` on has never been allocated. -/
structure ObjectHeap (α : Type) where
  cell : Nat → Option α
  next : Nat
  fresh : ∀ a, next ≤ a → cell a = none

namespace ObjectHeap

variable {α : Type}

def empty : ObjectHeap α := ⟨fun _ => none, 0, fun _ _ => rfl⟩

/-- Rewrite the object at `a`, if there is one. -/
def update (m : ObjectHeap α) (a : Nat) (f : α → α) : ObjectHeap α where
  cell b := if b = a then (m.cell b).map f else m.cell b
  next := m.next
  fresh b hb := by simp [m.fresh b hb]

/-- Assign through a pointer: undefined when `a` holds no object. -/
def modify (m : ObjectHeap α) (a : Nat) (f : α → α) : Option (ObjectHeap α) :=
  (m.cell a).map fun _ => m.update a f

/-- `new`. -/
def alloc (m : ObjectHeap α) (n : α) : ObjectHeap α × Nat :=
  ({ cell := fun b => if b = m.next then some n else m.cell b
     next := m.next + 1
     fresh := fun b hb => by
      rw [if_neg (Nat.ne_of_gt hb), m.fresh b (Nat.le_of_succ_le hb)] }, m.next)

/-- Forget the object at `a`. -/
def remove (m : ObjectHeap α) (a : Nat) : ObjectHeap α where
  cell b := if b = a then none else m.cell b
  next := m.next
  fresh b hb := by simp [m.fresh b hb]

/-- `delete`: undefined when `a` holds no object. -/
def free (m : ObjectHeap α) (a : Nat) : Option (ObjectHeap α) :=
  (m.cell a).map fun _ => m.remove a

/-! ## Reading back -/

variable {m : ObjectHeap α} {a b : Nat} {n : α} {f : α → α}

theorem cell_update (m : ObjectHeap α) (a b : Nat) (f : α → α) :
    (m.update a f).cell b = if b = a then (m.cell b).map f else m.cell b := rfl

@[simp] theorem cell_update_self (h : m.cell a = some n) :
    (m.update a f).cell a = some (f n) := by
  rw [cell_update, if_pos rfl, h]
  rfl

@[simp] theorem cell_update_ne (h : b ≠ a) : (m.update a f).cell b = m.cell b := by
  rw [cell_update, if_neg h]

@[simp] theorem next_update : (m.update a f).next = m.next := rfl

theorem modify_eq (h : m.cell a = some n) : m.modify a f = some (m.update a f) := by
  rw [modify, h]
  rfl

theorem lt_next (h : m.cell a = some n) : a < m.next := by
  by_contra hge
  rw [m.fresh a (Nat.le_of_not_lt hge)] at h
  cases h

theorem cell_alloc_next (n : α) : (m.alloc n).1.cell m.next = some n := if_pos rfl

/-! ## What a computation has written -/

/-- `m'` differs from `m` only at the addresses of `S`, and allocates nothing. -/
def Local (S : List Nat) (m m' : ObjectHeap α) : Prop :=
  m'.next = m.next ∧ ∀ a, a ∉ S → m'.cell a = m.cell a

theorem Local.refl (S : List Nat) (m : ObjectHeap α) : Local S m m := ⟨rfl, fun _ _ => rfl⟩

theorem Local.trans {S : List Nat} {m₁ m₂ m₃ : ObjectHeap α} (h₁ : Local S m₁ m₂)
    (h₂ : Local S m₂ m₃) : Local S m₁ m₃ :=
  ⟨h₂.1.trans h₁.1, fun a ha => (h₂.2 a ha).trans (h₁.2 a ha)⟩

theorem Local.mono {S S' : List Nat} {m m' : ObjectHeap α} (h : Local S m m')
    (hs : ∀ a ∈ S, a ∈ S') : Local S' m m' :=
  ⟨h.1, fun a ha => h.2 a fun ha' => ha (hs a ha')⟩

theorem Local.update {S : List Nat} (m : ObjectHeap α) (f : α → α) (ha : a ∈ S) :
    Local S m (m.update a f) :=
  ⟨rfl, fun _ hb => cell_update_ne fun h => hb (h ▸ ha)⟩

/-- Among the addresses `m` has handed out, `m'` differs only at those of `S`. -/
def Outside (S : List Nat) (m m' : ObjectHeap α) : Prop :=
  m.next ≤ m'.next ∧ ∀ a, a < m.next → a ∉ S → m'.cell a = m.cell a

theorem Local.outside {S : List Nat} {m m' : ObjectHeap α} (h : Local S m m') :
    Outside S m m' :=
  ⟨Nat.le_of_eq h.1.symm, fun a _ ha => h.2 a ha⟩

theorem Outside.mono {S S' : List Nat} {m m' : ObjectHeap α} (h : Outside S m m')
    (hs : ∀ a ∈ S, a ∈ S') : Outside S' m m' :=
  ⟨h.1, fun a ha ha' => h.2 a ha fun h' => ha' (hs a h')⟩

theorem Outside.trans {S S' : List Nat} {m₁ m₂ m₃ : ObjectHeap α} (h₁ : Outside S m₁ m₂)
    (h₂ : Outside S' m₂ m₃) (hS : ∀ a ∈ S', a < m₁.next → a ∈ S) : Outside S m₁ m₃ :=
  ⟨Nat.le_trans h₁.1 h₂.1, fun a ha haS =>
    (h₂.2 a (Nat.lt_of_lt_of_le ha h₁.1) fun h => haS (hS a h ha)).trans (h₁.2 a ha haS)⟩

theorem outside_alloc (S : List Nat) (m : ObjectHeap α) (n : α) : Outside S m (m.alloc n).1 :=
  ⟨Nat.le_succ _, fun _ ha _ => if_neg (Nat.ne_of_lt ha)⟩

/-! ## What a computation leaves behind -/

/-- What is alive in `m'` is one of the addresses of `S'`, or was alive in `m` and is none
of `S`: of `S` and of what was made since, only `S'` is left. -/
def Leaves (S S' : List Nat) (m m' : ObjectHeap α) : Prop :=
  ∀ a, m'.cell a ≠ none → a ∈ S' ∨ a ∉ S ∧ m.cell a ≠ none

theorem Leaves.refl (S : List Nat) (m : ObjectHeap α) : Leaves S S m m := by
  intro a ha
  by_cases hS : a ∈ S
  · exact .inl hS
  · exact .inr ⟨hS, ha⟩

theorem Leaves.trans {S S' T T' U : List Nat} {m₁ m₂ m₃ : ObjectHeap α} (h₁ : Leaves S S' m₁ m₂)
    (h₂ : Leaves T T' m₂ m₃) (hS' : ∀ a ∈ S', a ∉ T → a ∈ U) (hT' : ∀ a ∈ T', a ∈ U) :
    Leaves (S ++ T) U m₁ m₃ := by
  intro a ha
  rcases h₂ a ha with hmem | ⟨hT, ha₂⟩
  · exact .inl (hT' a hmem)
  · rcases h₁ a ha₂ with hmem | ⟨hS, ha₁⟩
    · exact .inl (hS' a hmem hT)
    · exact .inr ⟨fun hmem => (List.mem_append.mp hmem).elim hS hT, ha₁⟩

end ObjectHeap
