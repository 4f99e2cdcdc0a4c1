import Mathlib.Logic.ExistsUnique
import Mathlib.Tactic.ByContra

/-!
# Objects in one place

Each object that is alive is in exactly one place, and nothing is anywhere else. A
transition system keeps this if each of its steps makes an object in one place, moves one
from a place to another, drops one from where it is, or does none of these.
-/

namespace Exclusive

variable {α π : Type} {live live' : α → Prop} {at_ at' : α → π → Prop} {a : α} {p q : π}

/-- Each object that is alive is in one place. -/
structure Holds (live : α → Prop) (at_ : α → π → Prop) : Prop where
  placed : ∀ a, live a ↔ ∃ p, at_ a p
  unique : ∀ {a p q}, at_ a p → at_ a q → p = q

theorem Holds.existsUnique (h : Holds live at_) (ha : live a) : ∃! p, at_ a p := by
  obtain ⟨p, hp⟩ := (h.placed a).mp ha
  exact ⟨p, hp, fun q hq => h.unique hq hp⟩

/-- An object that is in one place is not in another. -/
theorem Holds.not_at (h : Holds live at_) (hp : at_ a p) (hne : q ≠ p) : ¬ at_ a q :=
  fun hq => hne (h.unique hq hp)

/-- Two objects in different places are different. -/
theorem Holds.ne (h : Holds live at_) {b : α} (hp : at_ a p) (hq : at_ b q) (hne : q ≠ p) :
    b ≠ a := by
  rintro rfl
  exact hne (h.unique hq hp)

/-- Nothing is moved. -/
theorem Holds.congr (h : Holds live at_) (hlive : ∀ a, live' a ↔ live a)
    (hat : ∀ a p, at' a p ↔ at_ a p) : Holds live' at' where
  placed a := by
    rw [hlive, h.placed]
    exact exists_congr fun p => (hat a p).symm
  unique hp hq := h.unique ((hat _ _).mp hp) ((hat _ _).mp hq)

/-- An object goes from `p` to `q`. -/
theorem Holds.move (h : Holds live at_) (ha : at_ a p) (hne : p ≠ q)
    (hlive : ∀ b, live' b ↔ live b) (hp : ∀ b, at' b p ↔ at_ b p ∧ b ≠ a)
    (hq : ∀ b, at' b q ↔ at_ b q ∨ b = a)
    (hrest : ∀ b r, r ≠ p → r ≠ q → (at' b r ↔ at_ b r)) : Holds live' at' := by
  -- where another object is, and where this one is
  have hother : ∀ {b r}, b ≠ a → (at' b r ↔ at_ b r) := by
    intro b r hba
    by_cases hrp : r = p
    · subst hrp
      rw [hp]
      exact ⟨And.left, fun hb => ⟨hb, hba⟩⟩
    by_cases hrq : r = q
    · subst hrq
      rw [hq]
      exact ⟨fun hb => hb.resolve_right hba, Or.inl⟩
    exact hrest b r hrp hrq
  have hself : ∀ {r}, at' a r → r = q := by
    intro r hr
    by_contra hrq
    by_cases hrp : r = p
    · subst hrp
      exact ((hp a).mp hr).2 rfl
    · exact hrp (h.unique ((hrest a r hrp hrq).mp hr) ha)
  constructor
  · intro b
    rw [hlive, h.placed]
    by_cases hba : b = a
    · subst hba
      exact ⟨fun _ => ⟨q, (hq b).mpr (.inr rfl)⟩, fun _ => ⟨p, ha⟩⟩
    · exact exists_congr fun r => (hother hba).symm
  · intro b r s hr hs
    by_cases hba : b = a
    · subst hba
      rw [hself hr, hself hs]
    · exact h.unique ((hother hba).mp hr) ((hother hba).mp hs)

/-- An object is made at `q`. -/
theorem Holds.create (h : Holds live at_) (ha : ¬ live a) (hlive : ∀ b, live' b ↔ live b ∨ b = a)
    (hq : ∀ b, at' b q ↔ at_ b q ∨ b = a) (hrest : ∀ b r, r ≠ q → (at' b r ↔ at_ b r)) :
    Holds live' at' := by
  have hnowhere : ∀ r, ¬ at_ a r := fun r hr => ha ((h.placed a).mpr ⟨r, hr⟩)
  have hcases : ∀ {b r}, at' b r ↔ at_ b r ∨ (b = a ∧ r = q) := by
    intro b r
    by_cases hrq : r = q
    · subst hrq
      rw [hq]
      exact or_congr_right ⟨fun hb => ⟨hb, rfl⟩, And.left⟩
    · rw [hrest b r hrq]
      exact ⟨Or.inl, fun hb => hb.resolve_right fun hr => hrq hr.2⟩
  constructor
  · intro b
    rw [hlive, h.placed]
    constructor
    · rintro (⟨r, hr⟩ | rfl)
      · exact ⟨r, hcases.mpr (.inl hr)⟩
      · exact ⟨q, hcases.mpr (.inr ⟨rfl, rfl⟩)⟩
    · rintro ⟨r, hr⟩
      obtain hr | ⟨rfl, -⟩ := hcases.mp hr
      · exact .inl ⟨r, hr⟩
      · exact .inr rfl
  · intro b r s hr hs
    obtain hr | ⟨hba, hr⟩ := hcases.mp hr <;> obtain hs | ⟨hba', hs⟩ := hcases.mp hs
    · exact h.unique hr hs
    · exact absurd (hba' ▸ hr) (hnowhere r)
    · exact absurd (hba ▸ hs) (hnowhere s)
    · rw [hr, hs]

/-- An object is dropped. -/
theorem Holds.delete (h : Holds live at_) (hlive : ∀ b, live' b ↔ live b ∧ b ≠ a)
    (hat : ∀ b r, at' b r ↔ at_ b r ∧ b ≠ a) : Holds live' at' where
  placed b := by
    rw [hlive, h.placed]
    constructor
    · rintro ⟨⟨r, hr⟩, hne⟩
      exact ⟨r, (hat b r).mpr ⟨hr, hne⟩⟩
    · rintro ⟨r, hr⟩
      obtain ⟨hr, hne⟩ := (hat b r).mp hr
      exact ⟨⟨r, hr⟩, hne⟩
  unique hp hq := h.unique ((hat _ _).mp hp).1 ((hat _ _).mp hq).1

end Exclusive
