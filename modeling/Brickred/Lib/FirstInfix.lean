import Mathlib.Data.List.Infix
import Mathlib.Data.Nat.Find

/-!
# The first occurrence of a word

`List.dropInfix?` cuts a list at the first occurrence of a word. The rules here
say when it finds one, that more input behind a found occurrence changes nothing,
and where the first occurrence lies when the list is put together from parts that
do not contain it.
-/

namespace FirstInfix

variable {α : Type} [BEq α] [LawfulBEq α] {l a p s w x : List α} {c : α}

theorem eq_some_iff : l.dropInfix? w = some (p, s) ↔
    l = p ++ w ++ s ∧ ∀ p' s', l = p' ++ w ++ s' → p.length ≤ p'.length := by
  rw [List.dropInfix?_eq_some_iff]
  constructor
  · rintro ⟨⟨i, hl, hi⟩, hmin⟩
    obtain rfl : i = w := eq_of_beq hi
    exact ⟨hl, fun p' s' h => hmin p' i s' h hi⟩
  · rintro ⟨hl, hmin⟩
    refine ⟨⟨w, hl, beq_self_eq_true w⟩, fun p' i s' h hi => ?_⟩
    obtain rfl : i = w := eq_of_beq hi
    exact hmin p' s' h

theorem eq_append (h : l.dropInfix? w = some (p, s)) : l = p ++ w ++ s :=
  (eq_some_iff.mp h).1

/-- The word does not occur before its first occurrence. -/
theorem not_infix (hne : w ≠ []) (h : l.dropInfix? w = some (p, s)) : ¬ w <:+: p := by
  rintro ⟨a, b, hp⟩
  obtain ⟨hl, hmin⟩ := eq_some_iff.mp h
  have hle := hmin a (b ++ w ++ s) (by rw [hl, ← hp]; simp only [List.append_assoc])
  have hpos := List.length_pos_iff.mpr hne
  have hlen := congrArg List.length hp
  rw [List.length_append, List.length_append] at hlen
  omega

/-- If the word occurs, a first occurrence is found. -/
theorem exists_of_infix (h : l = p ++ w ++ s) : ∃ p' s', l.dropInfix? w = some (p', s') := by
  classical
  have hex : ∃ n, ∃ p' s', l = p' ++ w ++ s' ∧ p'.length = n := ⟨_, p, s, h, rfl⟩
  obtain ⟨p', s', hl, hlen⟩ := Nat.find_spec hex
  refine ⟨p', s', eq_some_iff.mpr ⟨hl, fun p'' s'' h'' => ?_⟩⟩
  rw [hlen]
  exact Nat.find_min' hex ⟨p'', s'', h'', rfl⟩

omit [BEq α] [LawfulBEq α] in
/-- An occurrence that ends inside the first part is one of the first part. -/
theorem infix_of_length_le {s' : List α} (h : l ++ x = p ++ w ++ s')
    (hle : (p ++ w).length ≤ l.length) : ∃ s, l = p ++ w ++ s := by
  obtain ⟨s, hs⟩ : p ++ w <+: l :=
    List.prefix_of_prefix_length_le ⟨s', h.symm⟩ (List.prefix_append l x) hle
  exact ⟨s, hs.symm⟩

/-- More input does not move the first occurrence. -/
theorem append (h : l.dropInfix? w = some (p, s)) (x : List α) :
    (l ++ x).dropInfix? w = some (p, s ++ x) := by
  obtain ⟨hl, hmin⟩ := eq_some_iff.mp h
  refine eq_some_iff.mpr ⟨by rw [hl, List.append_assoc], fun p' s' h' => ?_⟩
  by_contra hlt
  have hlen : (p' ++ w).length ≤ l.length := by
    rw [hl]
    simp only [List.length_append]
    omega
  obtain ⟨s'', h''⟩ := infix_of_length_le h' hlen
  exact hlt (hmin p' s'' h'')

/-- What is found in a first part does not need the rest. -/
theorem of_append (h : (l ++ x).dropInfix? w = some (p, s)) (hle : p.length + w.length ≤ l.length) :
    ∃ s', l.dropInfix? w = some (p, s') := by
  obtain ⟨hl, hmin⟩ := eq_some_iff.mp h
  obtain ⟨s', hs'⟩ := infix_of_length_le hl (by rwa [List.length_append])
  refine ⟨s', eq_some_iff.mpr ⟨hs', fun p' s'' h' => hmin p' (s'' ++ x) ?_⟩⟩
  rw [h', List.append_assoc]

/-- An occurrence that only more input brings ends behind what was there. -/
theorem length_lt_of_append (h : l.dropInfix? w = none)
    (h' : (l ++ x).dropInfix? w = some (p, s)) : l.length < p.length + w.length := by
  by_contra hle
  obtain ⟨s', hs'⟩ := infix_of_length_le (eq_append h') (by rw [List.length_append]; omega)
  obtain ⟨_, _, he⟩ := exists_of_infix hs'
  rw [h] at he
  cases he

/-- Where the word does not start, it is searched for further on. -/
theorem cons (h : ¬ w <+: c :: l) :
    (c :: l).dropInfix? w = (l.dropInfix? w).map fun r => (c :: r.1, r.2) := by
  cases hl : l.dropInfix? w with
  | none =>
    cases hc : (c :: l).dropInfix? w with
    | none => rfl
    | some r =>
      have hr := eq_append hc
      obtain ⟨p, s⟩ := r
      cases p with
      | nil => exact absurd ⟨s, hr.symm⟩ h
      | cons b p =>
        injection hr with _ hr
        obtain ⟨_, _, he⟩ := exists_of_infix hr
        rw [hl] at he
        cases he
  | some r =>
    obtain ⟨hr, hmin⟩ := eq_some_iff.mp hl
    refine eq_some_iff.mpr ⟨by rw [hr]; rfl, fun p' s' h' => ?_⟩
    cases p' with
    | nil => exact absurd ⟨s', h'.symm⟩ h
    | cons b p' =>
      injection h' with _ h'
      exact Nat.succ_le_succ (hmin p' s' h')

/-- Bytes other than the word's first are passed over. -/
theorem append_left (h : c ∉ a) (l : List α) :
    (a ++ l).dropInfix? (c :: w) = (l.dropInfix? (c :: w)).map fun r => (a ++ r.1, r.2) := by
  induction a with
  | nil =>
    rw [List.nil_append]
    cases l.dropInfix? (c :: w) <;> rfl
  | cons b a ih =>
    obtain ⟨hb, ha⟩ := not_or.mp (mt List.mem_cons.mpr h)
    have hnot : ¬ c :: w <+: b :: (a ++ l) := fun hp => hb (List.cons_prefix_cons.mp hp).1
    rw [List.cons_append, cons hnot, ih ha, Option.map_map]
    rfl

theorem self (w s : List α) : (w ++ s).dropInfix? w = some ([], s) :=
  eq_some_iff.mpr ⟨rfl, fun _ _ _ => Nat.zero_le _⟩

/-- The first occurrence behind a part without the word's first byte. -/
theorem append_self (h : c ∉ a) (s : List α) :
    (a ++ (c :: w) ++ s).dropInfix? (c :: w) = some (a, s) := by
  rw [List.append_assoc, append_left h, self]
  simp

theorem eq_none (h : c ∉ l) : l.dropInfix? (c :: w) = none := by
  cases hl : l.dropInfix? (c :: w) with
  | none => rfl
  | some r =>
    rw [eq_append hl] at h
    simp at h

end FirstInfix
