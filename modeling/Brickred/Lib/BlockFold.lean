import Mathlib.Data.List.Basic

/-!
# Folding over blocks of a fixed length

A list that comes in pieces is folded block by block: `Folded` relates all that
has come so far to the value of the fold and to what is left, less than a block.
The rules below are the three things a reader that keeps a partial block can do:
put a short piece behind it, fill it up, and go on from where no part is left.
-/

namespace BlockFold

variable {α H : Type} {n : Nat} {f : H → List α → H} {h₀ h h' : H} {xs ys rest : List α}
  {blocks bs : List (List α)}

/-- `xs` is put together from the blocks, all of length `n`. -/
structure Cut (n : Nat) (blocks : List (List α)) (xs : List α) : Prop where
  sized : ∀ b ∈ blocks, b.length = n
  joined : blocks.flatten = xs

theorem Cut.nil : Cut n [] ([] : List α) := ⟨by simp, rfl⟩

theorem Cut.one (hlen : xs.length = n) : Cut n [xs] xs where
  sized b hb := by rwa [List.mem_singleton.mp hb]
  joined := List.flatten_singleton

theorem Cut.append (h₁ : Cut n blocks xs) (h₂ : Cut n bs ys) : Cut n (blocks ++ bs) (xs ++ ys) where
  sized b hb := (List.mem_append.mp hb).elim (h₁.sized b) (h₂.sized b)
  joined := by rw [List.flatten_append, h₁.joined, h₂.joined]

theorem Cut.length_eq (hcut : Cut n blocks xs) : xs.length = n * blocks.length := by
  rw [← hcut.joined, List.length_flatten, List.map_congr_left hcut.sized, List.map_const',
    List.sum_replicate_nat, Nat.mul_comm]

/-- The fold from `h₀` over the whole blocks at the beginning of `xs` has come to
`h`, and `rest` is left of it. -/
structure Folded (f : H → List α → H) (n : Nat) (h₀ : H) (xs : List α) (h : H)
    (rest : List α) : Prop where
  short : rest.length < n
  whole : ∃ blocks done, Cut n blocks done ∧ xs = done ++ rest ∧ h = blocks.foldl f h₀

theorem Folded.of_short (hshort : xs.length < n) : Folded f n h xs h xs :=
  ⟨hshort, [], [], .nil, rfl, rfl⟩

theorem Folded.length_rest (hf : Folded f n h₀ xs h rest) : rest.length = xs.length % n := by
  obtain ⟨blocks, done, hcut, rfl, -⟩ := hf.whole
  rw [List.length_append, hcut.length_eq, Nat.mul_add_mod, Nat.mod_eq_of_lt hf.short]

/-- A piece that does not fill the block. -/
theorem Folded.append_short (hf : Folded f n h₀ xs h rest) (hshort : (rest ++ ys).length < n) :
    Folded f n h₀ (xs ++ ys) h (rest ++ ys) := by
  obtain ⟨blocks, done, hcut, rfl, hfold⟩ := hf.whole
  exact ⟨hshort, blocks, done, hcut, List.append_assoc .., hfold⟩

/-- A piece that fills the block. -/
theorem Folded.append_full (hf : Folded f n h₀ xs h rest) (hfull : (rest ++ ys).length = n) :
    Folded f n h₀ (xs ++ ys) (f h (rest ++ ys)) [] := by
  obtain ⟨blocks, done, hcut, rfl, rfl⟩ := hf.whole
  refine ⟨Nat.zero_lt_of_lt hf.short, blocks ++ [rest ++ ys], done ++ (rest ++ ys),
    hcut.append (.one hfull), ?_, ?_⟩
  · rw [List.append_nil, List.append_assoc]
  · rw [List.foldl_append, List.foldl_cons, List.foldl_nil]

/-- Between blocks the fold starts afresh. -/
theorem Folded.trans (h₁ : Folded f n h₀ xs h []) (h₂ : Folded f n h ys h' rest) :
    Folded f n h₀ (xs ++ ys) h' rest := by
  obtain ⟨blocks, done, hcut, rfl, rfl⟩ := h₁.whole
  obtain ⟨bs, done', hcut', rfl, rfl⟩ := h₂.whole
  refine ⟨h₂.short, blocks ++ bs, done ++ done', hcut.append hcut', ?_, ?_⟩
  · rw [List.append_nil, List.append_assoc]
  · rw [List.foldl_append]

theorem Folded.cut (hf : Folded f n h₀ xs h []) : ∃ blocks, Cut n blocks xs ∧
    h = blocks.foldl f h₀ := by
  obtain ⟨blocks, done, hcut, rfl, hfold⟩ := hf.whole
  rw [List.append_nil]
  exact ⟨blocks, hcut, hfold⟩

end BlockFold
