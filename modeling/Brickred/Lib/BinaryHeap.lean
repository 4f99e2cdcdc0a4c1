import Mathlib.Order.Lattice
import Mathlib.Logic.Equiv.Basic

/-!
# Binary heaps with slots counted from one

Slot `i` has the children `2 * i` and `2 * i + 1`, so its parent is `i / 2` and
slot 1 is the root. A heap of `n` slots is read through a function `key`, which
gives the key at a slot; slots outside `1..n` do not matter. This covers a heap
of values as well as an array of pointers to objects that hold their keys.

The two sifting loops keep an order that is broken around one slot only:
`UpOrder` when the key there may be too small for its parent, `DownOrder` when
it may be too large for its children.
-/

namespace BinaryHeap

variable {K : Type*} [LinearOrder K] {n c d : Nat} {key key' : Nat → K}

/-- No key in slots `1..n` is smaller than its parent's. -/
def Ordered (n : Nat) (key : Nat → K) : Prop :=
  ∀ i, 1 < i → i ≤ n → key (i / 2) ≤ key i

/-- Ordered but for slot `c` and its parent; the children of `c` are in order
with the parent of `c`. -/
structure UpOrder (n : Nat) (key : Nat → K) (c : Nat) : Prop where
  other : ∀ i, 1 < i → i ≤ n → i ≠ c → key (i / 2) ≤ key i
  below : ∀ i, 1 < c → i ≤ n → i / 2 = c → key (c / 2) ≤ key i

/-- Ordered but for slot `c` and its children; the children of `c` are in order
with the parent of `c`. -/
structure DownOrder (n : Nat) (key : Nat → K) (c : Nat) : Prop where
  other : ∀ i, 1 < i → i ≤ n → i / 2 ≠ c → key (i / 2) ≤ key i
  below : ∀ i, 1 < c → i ≤ n → i / 2 = c → key (c / 2) ≤ key i

/-- The key at the root is the least. -/
theorem Ordered.root_le (h : Ordered n key) {i : Nat} (hpos : 0 < i) (hle : i ≤ n) :
    key 1 ≤ key i := by
  induction i using Nat.strongRecOn with
  | _ i ih =>
    by_cases hi : i = 1
    · rw [hi]
    · have hparent : key 1 ≤ key (i / 2) := ih (i / 2) (by omega) (by omega) (by omega)
      exact hparent.trans (h i (by omega) hle)

/-- Keys outside the heap do not matter. -/
theorem Ordered.congr (h : Ordered n key) (heq : ∀ i, 0 < i → i ≤ n → key' i = key i) :
    Ordered n key' := by
  intro i hi hle
  rw [heq i (by omega) hle, heq (i / 2) (by omega) (by omega)]
  exact h i hi hle

/-! ## Sifting up -/

/-- The new last slot is the only one that may be out of order. -/
theorem Ordered.push (h : Ordered n key) : UpOrder (n + 1) key (n + 1) where
  other i hi hle hne := h i hi (by omega)
  below i _ hle hi := by omega

/-- A key that has reached the root, or is not smaller than its parent, is in
place. -/
theorem UpOrder.done (h : UpOrder n key c) (hstop : c / 2 = 0 ∨ ¬key c < key (c / 2)) :
    Ordered n key := by
  intro i hi hle
  by_cases hic : i = c
  · subst hic
    rcases hstop with h0 | hge
    · omega
    · exact not_lt.mp hge
  · exact h.other i hi hle hic

/-- Exchanging a key with its larger parent moves the disorder up by one. -/
theorem UpOrder.swap (h : UpOrder n key c) (hc : c / 2 ≠ 0) (hle : c ≤ n)
    (hlt : key c < key (c / 2)) (hp : key' (c / 2) = key c) (hq : key' c = key (c / 2))
    (heq : ∀ i, i ≠ c → i ≠ c / 2 → key' i = key i) : UpOrder n key' (c / 2) := by
  have hroot : 1 < c / 2 → key (c / 2 / 2) ≤ key (c / 2) := fun h1 =>
    h.other (c / 2) h1 (by omega) (by omega)
  constructor
  · intro i hi hin hne
    by_cases hic : i = c
    · rw [hic, hp, hq]
      exact hlt.le
    · rw [heq i hic hne]
      by_cases hchild : i / 2 = c
      · -- a child of `c` now stands below the old parent
        rw [hchild, hq]
        exact h.below i (by omega) hin hchild
      · by_cases hsib : i / 2 = c / 2
        · -- the sibling of `c` stood below a larger key before
          rw [hsib, hp]
          exact hlt.le.trans (hsib ▸ h.other i hi hin hic)
        · rw [heq (i / 2) hchild hsib]
          exact h.other i hi hin hic
  · intro i h1 hin hi
    rw [heq (c / 2 / 2) (by omega) (by omega)]
    by_cases hic : i = c
    · rw [hic, hq]
      exact hroot h1
    · rw [heq i hic (by omega)]
      exact (hroot h1).trans (hi ▸ h.other i (by omega) hin hic)

/-! ## Sifting down -/

/-- A key no child of which is smaller is in place. -/
theorem DownOrder.done (h : DownOrder n key c)
    (hstop : ∀ i, 1 < i → i ≤ n → i / 2 = c → ¬key i < key c) : Ordered n key := by
  intro i hi hle
  by_cases hic : i / 2 = c
  · rw [hic]
    exact not_lt.mp (hstop i hi hle hic)
  · exact h.other i hi hle hic

/-- Exchanging a key with its smaller child `d`, the lesser of the two, moves
the disorder down to `d`. -/
theorem DownOrder.swap (h : DownOrder n key c) (hc : 0 < c) (hd : d / 2 = c) (hle : d ≤ n)
    (hlt : key d < key c) (hmin : ∀ i, i ≤ n → i / 2 = c → key d ≤ key i)
    (hp : key' c = key d) (hq : key' d = key c)
    (heq : ∀ i, i ≠ c → i ≠ d → key' i = key i) : DownOrder n key' d := by
  have hdc : d ≠ c := by omega
  constructor
  · intro i hi hin hne
    by_cases hid : i = d
    · rw [hid, hd, hp, hq]
      exact hlt.le
    · by_cases hic : i = c
      · -- `c` itself now holds its old child
        rw [hic, hp, heq (c / 2) (by omega) (by omega)]
        exact h.below d (by omega) hle hd
      · rw [heq i hic hid]
        by_cases hsib : i / 2 = c
        · rw [hsib, hp]
          exact hmin i hin hsib
        · rw [heq (i / 2) hsib hne]
          exact h.other i hi hin hsib
  · intro i h1 hin hi
    rw [hd, hp, heq i (by omega) (by omega)]
    exact hi ▸ h.other i (by omega) hin (by omega)

/-! ## Taking the last key into another slot -/

/-- Around a slot that got another key the children are in order with the
parent. -/
theorem Ordered.replace_below (h : Ordered (n + 1) key)
    (heq : ∀ i, i ≤ n → i ≠ c → key' i = key i) :
    ∀ i, 1 < c → i ≤ n → i / 2 = c → key' (c / 2) ≤ key' i := by
  intro i h1 hin hi
  rw [heq i hin (by omega), heq (c / 2) (by omega) (by omega)]
  have hchild : key c ≤ key i := hi ▸ h i (by omega) (by omega)
  exact (h c h1 (by omega)).trans hchild

/-- The last key, put into slot `c` and smaller than the parent there, has to
go up. -/
theorem Ordered.replace_up (h : Ordered (n + 1) key) (h1 : 1 < c)
    (heq : ∀ i, i ≤ n → i ≠ c → key' i = key i) (hlt : key' c < key' (c / 2)) :
    UpOrder n key' c where
  other i hi hin hne := by
    by_cases hic : i / 2 = c
    · rw [hic]
      exact hlt.le.trans (h.replace_below heq i h1 hin hic)
    · rw [heq i hin hne, heq (i / 2) (by omega) hic]
      exact h i hi (by omega)
  below := h.replace_below heq

/-- The last key, put into slot `c` and not smaller than the parent there, has
to go down. -/
theorem Ordered.replace_down (h : Ordered (n + 1) key)
    (heq : ∀ i, i ≤ n → i ≠ c → key' i = key i) (hge : 1 < c → ¬key' c < key' (c / 2)) :
    DownOrder n key' c where
  other i hi hin hne := by
    by_cases hic : i = c
    · rw [hic]
      exact not_lt.mp (hge (hic ▸ hi))
    · rw [heq i hin hic, heq (i / 2) (by omega) hne]
      exact h i hi (by omega)
  below := h.replace_below heq

end BinaryHeap
