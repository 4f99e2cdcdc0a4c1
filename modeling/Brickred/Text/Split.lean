import Brickred.Text.StringUtil

/-!
# Splitting and replacing (`string_util.cc`)

Three loops look for a separator, each with a limit counted in its own way: the two
overloads of `split` and `replace`. `Parts` says which parts a string has when it is cut
at the first separators; each loop is shown to go through these parts.
-/

namespace Brickred

namespace StringUtil

/-- The loop of `string_util::split` on a string that ends at a NUL; `last` is the memory
from that pointer on. -/
def splitCStrLoop (sep : Bytes) (maxSplit : Int) : Nat → Int → Bytes → List Bytes
  | 0, _, last => [cstr last]
  | fuel + 1, count, last =>
    if maxSplit > 0 ∧ count + 1 ≥ maxSplit then
      [cstr last]
    else
      match (cstr last).dropInfix? sep with
      | none => [cstr last]
      | some (part, _) =>
        part :: splitCStrLoop sep maxSplit fuel (count + 1) (last.drop (part.length + sep.length))

/-- `string_util::split` on a string that ends at a NUL -/
def splitCStr (str sep : Bytes) (maxSplit : Int) : List Bytes :=
  if cstr sep = [] then [cstr str] else splitCStrLoop (cstr sep) maxSplit str.length 0 str

/-- The loop of `string_util::replace`. Every round goes past an occurrence, so as many
rounds as there are bytes are enough. -/
def replaceLoop (search replace : Bytes) (maxReplace : Int) : Nat → Bytes → Nat → Int → Bytes
  | 0, ret, _, _ => ret
  | fuel + 1, ret, pos, count =>
    match (ret.drop pos).dropInfix? search with
    | none => ret
    | some (part, _) =>
      let pos := pos + part.length
      let ret := ret.take pos ++ replace ++ ret.drop (pos + search.length)
      let pos := pos + replace.length
      if maxReplace > 0 ∧ count + 1 ≥ maxReplace then ret
      else replaceLoop search replace maxReplace fuel ret pos (count + 1)

/-- `string_util::replace` -/
def replace (str search replace : Bytes) (maxReplace : Int) : Bytes :=
  if search = [] then str
  else if maxReplace = 0 then str
  else replaceLoop search replace maxReplace str.length str 0 0

/-! ## The parts of a string -/

/-- The parts of a string that is cut at a separator as often as it is there, and at most
as often as `left` says. -/
inductive Parts (sep : Bytes) : Option Nat → Bytes → List Bytes → Prop where
  | stop {str} : Parts sep (some 0) str [str]
  | last {left str} : str.dropInfix? sep = none → Parts sep left str [str]
  | cut {left str part rest parts} : left ≠ some 0 → str.dropInfix? sep = some (part, rest) →
      Parts sep (left.map (· - 1)) rest parts → Parts sep left str (part :: parts)

variable {sep str : Bytes} {left : Option Nat} {parts parts' : List Bytes}

theorem Parts.unique (h : Parts sep left str parts) (h' : Parts sep left str parts') :
    parts = parts' := by
  induction h generalizing parts' with
  | stop =>
    cases h' with
    | stop => rfl
    | last => rfl
    | cut hleft => exact absurd rfl hleft
  | last hnone =>
    cases h' with
    | stop => rfl
    | last => rfl
    | cut _ hsome => cases hnone.symm.trans hsome
  | cut hleft hsome _ ih =>
    cases h' with
    | stop => exact absurd rfl hleft
    | last hnone => cases hnone.symm.trans hsome
    | cut _ hsome' hparts =>
      cases hsome.symm.trans hsome'
      rw [ih hparts]

theorem Parts.ne_nil (h : Parts sep left str parts) : parts ≠ [] := by
  cases h <;> nofun

theorem Parts.intercalate (h : Parts sep left str parts) : sep.intercalate parts = str := by
  induction h with
  | stop => exact List.intercalate_singleton
  | last => exact List.intercalate_singleton
  | cut _ hsome hparts ih =>
    rw [List.intercalate_cons_of_ne_nil hparts.ne_nil, ih, FirstInfix.eq_append hsome]

theorem Parts.length_le (h : Parts sep left str parts) : ∀ n ∈ left, parts.length ≤ n + 1 := by
  induction h with
  | stop => exact fun n _ => Nat.le_add_left ..
  | last => exact fun n _ => Nat.le_add_left ..
  | cut hleft _ _ ih =>
    intro n hn
    have := ih (n - 1) (by rw [hn]; rfl)
    have hpos : n ≠ 0 := fun h => hleft (by rw [hn, h])
    rw [List.length_cons]
    omega

theorem Parts.not_infix_of_dropLast (hne : sep ≠ []) (h : Parts sep left str parts) :
    ∀ part ∈ parts.dropLast, ¬ sep <:+: part := by
  induction h with
  | stop => exact fun _ => nofun
  | last => exact fun _ => nofun
  | cut _ hsome hparts ih =>
    intro part hpart
    rw [List.dropLast_cons_of_ne_nil hparts.ne_nil] at hpart
    rcases List.mem_cons.mp hpart with rfl | hpart
    · exact FirstInfix.not_infix hne hsome
    · exact ih part hpart

/-- The last part holds the separator only when there are as many parts as are allowed. -/
theorem Parts.infix_of_getLast (h : Parts sep left str parts) :
    ∀ part ∈ parts.getLast?, sep <:+: part → left = some (parts.length - 1) := by
  induction h with
  | stop => exact fun _ _ _ => rfl
  | last hnone =>
    rintro part hpart ⟨a, b, heq⟩
    cases hpart
    obtain ⟨_, _, hsome⟩ := FirstInfix.exists_of_infix heq.symm
    cases hnone.symm.trans hsome
  | @cut left str part rest parts hleft hsome hparts ih =>
    intro last hlast hinfix
    obtain ⟨b, l, rfl⟩ := List.exists_cons_of_ne_nil hparts.ne_nil
    rw [List.getLast?_cons_cons] at hlast
    obtain ⟨n, rfl, hn⟩ := Option.map_eq_some_iff.mp (ih last hlast hinfix)
    have hne : n ≠ 0 := fun h => hleft (congrArg some h)
    rw [List.length_cons, List.length_cons] at *
    congr 1
    omega

/-! ## The loops -/

/-- How often a string may still be cut when `count` parts of at most `maxSplit` have been
taken. -/
def cutsLeft (maxSplit count : Int) : Option Nat :=
  if maxSplit > 0 then some (maxSplit - 1 - count).toNat else none

theorem cutsLeft_pred (maxSplit count : Int) :
    (cutsLeft maxSplit count).map (· - 1) = cutsLeft maxSplit (count + 1) := by
  rw [cutsLeft, cutsLeft]
  split
  · rw [Option.map_some]
    congr 1
    omega
  · rfl

theorem cutsLeft_zero {maxSplit count : Int} (h : maxSplit > 0 ∧ count + 1 ≥ maxSplit) :
    cutsLeft maxSplit count = some 0 := by
  rw [cutsLeft, if_pos h.1]
  congr 1
  omega

theorem cutsLeft_ne_zero {maxSplit count : Int} (h : ¬ (maxSplit > 0 ∧ count + 1 ≥ maxSplit)) :
    cutsLeft maxSplit count ≠ some 0 := by
  rw [cutsLeft]
  split
  · rw [ne_eq, Option.some.injEq]
    omega
  · nofun

theorem dropInfix_nil (hne : sep ≠ []) : ([] : Bytes).dropInfix? sep = none := by
  cases h : ([] : Bytes).dropInfix? sep with
  | none => rfl
  | some r =>
    have := congrArg List.length (FirstInfix.eq_append (p := r.1) (s := r.2) h)
    have hpos := List.length_pos_iff.mpr hne
    simp only [List.length_append, List.length_nil] at this
    omega

theorem length_rest_lt {part rest : Bytes} (hne : sep ≠ [])
    (h : str.dropInfix? sep = some (part, rest)) : rest.length < str.length := by
  have hpos := List.length_pos_iff.mpr hne
  rw [FirstInfix.eq_append h, List.length_append, List.length_append]
  omega

theorem splitLoop_parts (hne : sep ≠ []) {maxSplit : Int} (fuel : Nat) (count : Int) (last : Bytes)
    (hfuel : last.length ≤ fuel) :
    Parts sep (cutsLeft maxSplit count) last (splitLoop sep maxSplit fuel count last) := by
  induction fuel generalizing count last with
  | zero =>
    rw [List.length_eq_zero_iff.mp (Nat.le_zero.mp hfuel)]
    exact .last (dropInfix_nil hne)
  | succ fuel ih =>
    rw [splitLoop]
    split
    next hlimit =>
      rw [cutsLeft_zero hlimit]
      exact .stop
    next hlimit =>
      cases hfound : last.dropInfix? sep with
      | none => exact .last hfound
      | some r =>
        obtain ⟨part, rest⟩ := r
        refine .cut (cutsLeft_ne_zero hlimit) hfound ?_
        rw [cutsLeft_pred]
        have := length_rest_lt hne hfound
        exact ih _ _ (by omega)

theorem split_parts (hne : sep ≠ []) (str : Bytes) (maxSplit : Int) :
    Parts sep (cutsLeft maxSplit 0) str (split str sep maxSplit) := by
  rw [split, if_neg hne]
  exact splitLoop_parts hne _ _ _ (Nat.le_refl _)

theorem splitCStrLoop_parts (hne : sep ≠ []) {maxSplit : Int} (fuel : Nat) (count : Int)
    (last : Bytes) (hfuel : last.length ≤ fuel) (hnul : (0 : UInt8) ∉ last) :
    Parts sep (cutsLeft maxSplit count) last (splitCStrLoop sep maxSplit fuel count last) := by
  induction fuel generalizing count last with
  | zero =>
    rw [List.length_eq_zero_iff.mp (Nat.le_zero.mp hfuel)]
    exact .last (dropInfix_nil hne)
  | succ fuel ih =>
    rw [splitCStrLoop, cstr_eq hnul]
    split
    next hlimit =>
      rw [cutsLeft_zero hlimit]
      exact .stop
    next hlimit =>
      cases hfound : last.dropInfix? sep with
      | none => exact .last hfound
      | some r =>
        obtain ⟨part, rest⟩ := r
        have hdrop : last.drop (part.length + sep.length) = rest := by
          rw [FirstInfix.eq_append hfound, ← List.length_append, List.drop_left]
        have hlen := length_rest_lt hne hfound
        refine .cut (cutsLeft_ne_zero hlimit) hfound ?_
        rw [cutsLeft_pred, ← hdrop]
        refine ih _ _ (by rw [hdrop]; omega) fun h => hnul (List.mem_of_mem_drop h)

theorem Parts.of_found {part rest : Bytes} (h : Parts sep left str parts) (hleft : left ≠ some 0)
    (hfound : str.dropInfix? sep = some (part, rest)) :
    ∃ parts', parts = part :: parts' ∧ Parts sep (left.map (· - 1)) rest parts' := by
  cases h with
  | stop => exact absurd rfl hleft
  | last hnone => cases hnone.symm.trans hfound
  | cut _ hsome hparts =>
    cases hsome.symm.trans hfound
    exact ⟨_, rfl, hparts⟩

/-- The limit of `split` that a limit of `replace` is. -/
def splitLimit (maxReplace : Int) : Int := if maxReplace < 0 then -1 else maxReplace + 1

/-- What `replace` has put in it does not look at again. -/
theorem replaceLoop_eq (hne : sep ≠ []) {r : Bytes} {maxReplace : Int} (hzero : maxReplace ≠ 0)
    (fuel : Nat) (count : Int) (done rest : Bytes) (hfuel : rest.length ≤ fuel)
    (hcount : maxReplace > 0 → count < maxReplace)
    (h : Parts sep (cutsLeft (splitLimit maxReplace) count) rest parts) :
    replaceLoop sep r maxReplace fuel (done ++ rest) done.length count =
      done ++ r.intercalate parts := by
  induction fuel generalizing count done rest parts with
  | zero =>
    have hrest := List.length_eq_zero_iff.mp (Nat.le_zero.mp hfuel)
    subst hrest
    rw [h.unique (.last (dropInfix_nil hne)), List.intercalate_singleton]
    rfl
  | succ fuel ih =>
    rw [replaceLoop, List.drop_left]
    cases hfound : rest.dropInfix? sep with
    | none => rw [h.unique (.last hfound), List.intercalate_singleton]
    | some found =>
      obtain ⟨part, rest'⟩ := found
      have hlen := length_rest_lt hne hfound
      have hlimit : ¬ (splitLimit maxReplace > 0 ∧ count + 1 ≥ splitLimit maxReplace) := by
        rw [splitLimit]
        split <;> omega
      obtain ⟨parts', rfl, hparts⟩ := h.of_found (cutsLeft_ne_zero hlimit) hfound
      rw [cutsLeft_pred] at hparts
      have hrest := FirstInfix.eq_append hfound
      have htake : (done ++ rest).take (done.length + part.length) = done ++ part := by
        rw [hrest, List.append_assoc, ← List.append_assoc, ← List.length_append, List.take_left]
      have hdrop : (done ++ rest).drop (done.length + part.length + sep.length) = rest' := by
        rw [hrest, ← List.append_assoc, ← List.append_assoc, ← List.length_append,
          ← List.length_append, List.drop_left]
      have hpos : done.length + part.length + r.length = (done ++ part ++ r).length := by
        rw [List.length_append, List.length_append]
      simp only [htake, hdrop, hpos]
      rw [List.intercalate_cons_of_ne_nil hparts.ne_nil]
      split
      next hdone =>
        -- the limit is reached: the rest is the last part
        have hstop : splitLimit maxReplace > 0 ∧ count + 1 + 1 ≥ splitLimit maxReplace := by
          rw [splitLimit, if_neg (by omega)]
          omega
        rw [cutsLeft_zero hstop] at hparts
        rw [hparts.unique .stop, List.intercalate_singleton]
        simp only [List.append_assoc]
      next hmore =>
        rw [ih (count + 1) (done ++ part ++ r) rest' (by omega) (by omega) hparts]
        simp only [List.append_assoc]

theorem replace_eq (hne : sep ≠ []) (str r : Bytes) (maxReplace : Int) :
    replace str sep r maxReplace = r.intercalate (split str sep (splitLimit maxReplace)) := by
  have hparts := split_parts hne str (splitLimit maxReplace)
  rw [replace, if_neg hne]
  split
  next hzero =>
    rw [cutsLeft_zero (by rw [hzero]; decide)] at hparts
    rw [hparts.unique .stop, List.intercalate_singleton]
  next hzero =>
    exact replaceLoop_eq hne hzero str.length 0 [] str (Nat.le_refl _) id hparts

theorem splitCStr_eq {str : Bytes} (hne : sep ≠ []) (hstr : (0 : UInt8) ∉ str)
    (hsep : (0 : UInt8) ∉ sep) (maxSplit : Int) : splitCStr str sep maxSplit = split str sep maxSplit := by
  rw [splitCStr, cstr_eq hsep, if_neg hne]
  exact (splitCStrLoop_parts hne _ _ _ (Nat.le_refl _) hstr).unique (split_parts hne str maxSplit)

/-- The parts put together again give the string, the two overloads agree on them, and
`replace` puts them together with something else. -/
theorem split_replace {s p : Bytes} (hs : (0 : UInt8) ∉ s) (hp : (0 : UInt8) ∉ p) (hne : p ≠ [])
    (m : Int) (r : Bytes) (k : Int) :
    p.intercalate (split s p m) = s ∧ (m > 0 → (split s p m).length ≤ m) ∧
      (∀ part ∈ (split s p m).dropLast, ¬ p <:+: part) ∧
      (∀ part ∈ (split s p m).getLast?, p <:+: part → m > 0 ∧ (split s p m).length = m) ∧
      splitCStr s p m = split s p m ∧
      replace s p r k = r.intercalate (split s p (if k < 0 then -1 else k + 1)) := by
  have hparts := split_parts hne s m
  refine ⟨hparts.intercalate, fun hm => ?_, hparts.not_infix_of_dropLast hne,
    fun part hpart hinfix => ?_, splitCStr_eq hne hs hp m, replace_eq hne s r k⟩
  · have := hparts.length_le (m - 1 - 0).toNat (by rw [cutsLeft, if_pos hm]; rfl)
    omega
  · have hleft := hparts.infix_of_getLast part hpart hinfix
    have hpos := List.length_pos_iff.mpr hparts.ne_nil
    rw [cutsLeft] at hleft
    split at hleft
    next hm =>
      have := Option.some.inj hleft
      exact ⟨hm, by omega⟩
    next => cases hleft

/-- A separator that overlaps itself, a limit, and a replacement that holds the separator. -/
theorem split_replace_overlapping :
    (bytes "aa").intercalate (split (bytes "aaaaa") (bytes "aa") 2) = bytes "aaaaa" ∧
      ((2 : Int) > 0 → (split (bytes "aaaaa") (bytes "aa") 2).length ≤ (2 : Int)) ∧
      (∀ part ∈ (split (bytes "aaaaa") (bytes "aa") 2).dropLast, ¬ bytes "aa" <:+: part) ∧
      (∀ part ∈ (split (bytes "aaaaa") (bytes "aa") 2).getLast?, bytes "aa" <:+: part →
        (2 : Int) > 0 ∧ (split (bytes "aaaaa") (bytes "aa") 2).length = (2 : Int)) ∧
      splitCStr (bytes "aaaaa") (bytes "aa") 2 = split (bytes "aaaaa") (bytes "aa") 2 ∧
      replace (bytes "aaaaa") (bytes "aa") (bytes "aaa") (-1) =
        (bytes "aaa").intercalate
          (split (bytes "aaaaa") (bytes "aa") (if (-1 : Int) < 0 then -1 else -1 + 1)) :=
  split_replace (by decide) (by decide) (by decide) 2 (bytes "aaa") (-1)

end StringUtil

end Brickred
