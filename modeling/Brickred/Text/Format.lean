import Mathlib.Data.List.Basic
import Brickred.Text.StringUtil

/-!
# Reading back what was formatted

Decimal numbers, lines joined by a separator, and words with blanks around them.
-/

namespace Brickred

open StringUtil (trim ltrim rtrim isBlank split splitLoop)

/-! ## Numbers -/

theorem digitValue_ofNat {c : Char} (h : c.isDigit = true) :
    isdigit (UInt8.ofNat c.toNat) = true ∧ digitValue (UInt8.ofNat c.toNat) = c.toNat - 48 := by
  have hge : 48 ≤ c.toNat := by
    simp only [Char.isDigit, Bool.and_eq_true, decide_eq_true_eq] at h
    exact UInt32.le_iff_toNat_le.mp h.1
  have hle : c.toNat ≤ 57 := by
    simp only [Char.isDigit, Bool.and_eq_true, decide_eq_true_eq] at h
    exact UInt32.le_iff_toNat_le.mp h.2
  have hnat : (UInt8.ofNat c.toNat).toNat = c.toNat := UInt8.toNat_ofNat_of_lt' (by
    show c.toNat < 256
    omega)
  have hdigit : isdigit (UInt8.ofNat c.toNat) = true := by
    simp only [isdigit, Bool.and_eq_true, decide_eq_true_eq, UInt8.le_iff_toNat_le, hnat]
    exact ⟨hge, hle⟩
  refine ⟨hdigit, ?_⟩
  rw [digitValue, if_pos hdigit, hnat]

/-- The digits of a number are digits, and their value is the number. -/
theorem toString_digits (n : Nat) :
    (∀ c ∈ StringUtil.toString n, isdigit c = true) ∧
      digitsValue 10 (StringUtil.toString n) = n := by
  have hdigit : ∀ c ∈ Nat.toDigits 10 n, c.isDigit = true := fun c hc =>
    Nat.isDigit_of_mem_toDigits (by decide) (by decide) hc
  constructor
  · intro c hc
    obtain ⟨d, hd, rfl⟩ := List.mem_map.mp hc
    exact (digitValue_ofNat (hdigit d hd)).1
  · unfold digitsValue StringUtil.toString
    rw [List.foldl_map]
    have hfold : ∀ (ds : List Char) (v : Nat), (∀ d ∈ ds, d.isDigit = true) →
        ds.foldl (fun v c => 10 * v + digitValue (UInt8.ofNat c.toNat)) v =
          Nat.ofDigitChars 10 ds v := by
      intro ds
      induction ds with
      | nil =>
        intro v _
        rw [Nat.ofDigitChars_nil]
        rfl
      | cons d ds ih =>
        intro v hds
        rw [List.foldl_cons, Nat.ofDigitChars_cons, (digitValue_ofNat (hds d (.head _))).2]
        exact ih _ fun d' hd' => hds d' (.tail _ hd')
    rw [hfold _ 0 hdigit, Nat.ofDigitChars_ten_toDigits]

theorem length_toString_pos (n : Nat) : 0 < (StringUtil.toString n).length := by
  unfold StringUtil.toString
  rw [List.length_map]
  exact Nat.length_toDigits_pos

theorem length_toString_le {n k : Nat} (hk : 0 < k) (h : n < 10 ^ k) :
    (StringUtil.toString n).length ≤ k := by
  unfold StringUtil.toString
  rw [List.length_map]
  exact (Nat.length_toDigits_le_iff (by decide) hk).mpr h

/-- A digit is none of the bytes that mean something else to the parsers. -/
theorem digit_bounds {c : UInt8} (h : isdigit c = true) : 48 ≤ c.toNat ∧ c.toNat ≤ 57 := by
  simp only [isdigit, Bool.and_eq_true, decide_eq_true_eq, UInt8.le_iff_toNat_le] at h
  exact h

theorem not_mem_toString {c : UInt8} (n : Nat) (h : c.toNat < 48 ∨ 57 < c.toNat) :
    c ∉ StringUtil.toString n := by
  intro hc
  have := digit_bounds ((toString_digits n).1 c hc)
  omega

theorem scan_digits {ds : Bytes} (h : ∀ c ∈ ds, isdigit c = true) (hne : ds ≠ []) :
    cstr ds = ds ∧ scanSign (ds.dropWhile isspace) = (false, ds) ∧ ds.takeWhile isdigit = ds := by
  obtain ⟨c, ds', rfl⟩ := List.exists_cons_of_ne_nil hne
  have hc := digit_bounds (h c (.head _))
  refine ⟨?_, ?_, ?_⟩
  · refine List.takeWhile_eq_self_iff.mpr fun d hd => ?_
    have hd := digit_bounds (h d hd)
    simp only [ne_eq, decide_not, Bool.not_eq_true', decide_eq_false_iff_not]
    rintro rfl
    exact absurd hd.1 (by decide)
  · have hspace : isspace c = false := by
      simp only [isspace, Bool.or_eq_false_iff, beq_eq_false_iff_ne, ne_eq, Bool.and_eq_false_iff,
        decide_eq_false_iff_not, UInt8.le_iff_toNat_le]
      refine ⟨?_, .inr fun hle => ?_⟩
      · rintro rfl
        exact absurd hc.1 (by decide)
      · have : (13 : UInt8).toNat = 13 := rfl
        omega
    rw [List.dropWhile_cons_of_neg (by simp [hspace])]
    unfold scanSign
    split
    · rename_i heq
      injection heq with heq
      subst heq
      exact absurd hc.1 (by decide)
    · rename_i heq
      injection heq with heq
      subst heq
      exact absurd hc.1 (by decide)
    · rfl
  · exact List.takeWhile_eq_self_iff.mpr h

/-- `atoi` reads digits, if their number is an `int`. -/
theorem atoi_digits {ds : Bytes} (hdigits : ∀ c ∈ ds, isdigit c = true) (hne : ds ≠ [])
    (h : digitsValue 10 ds < 2 ^ 31) : atoi ds = digitsValue 10 ds := by
  obtain ⟨hcstr, hsign, htake⟩ := scan_digits hdigits hne
  unfold atoi strtol
  rw [hcstr, hsign]
  dsimp only
  rw [htake]
  generalize digitsValue 10 ds = n at h
  have hmin : min ((2 : Int) ^ 63 - 1) (n : Int) = (n : Int) := by omega
  rw [if_neg (by decide), hmin, Int.bmod_def]
  omega

theorem atoi_lt (s : Bytes) : atoi s < 2 ^ 31 := by
  unfold atoi
  rw [Int.bmod_def]
  split <;> omega

/-- `atoi` reads what `toString` writes. -/
theorem atoi_toString {n : Nat} (h : n < 2 ^ 31) : atoi (StringUtil.toString n) = n := by
  obtain ⟨hdigits, hvalue⟩ := toString_digits n
  have hne : StringUtil.toString n ≠ [] := List.ne_nil_of_length_pos (length_toString_pos n)
  rw [atoi_digits hdigits hne (by rwa [hvalue]), hvalue]

/-! ## Hexadecimal numbers -/

theorem xdigit_spec {c : UInt8} (h : isxdigit c = true) :
    c ≠ 0 ∧ c ≠ 13 ∧ isspace c = false ∧ c ≠ 45 ∧ c ≠ 43 ∧ c ≠ 120 ∧ c ≠ 88 := by
  have hge : 48 ≤ c.toNat := by
    simp only [isxdigit, isdigit, Bool.or_eq_true, Bool.and_eq_true, decide_eq_true_eq,
      UInt8.le_iff_toNat_le] at h
    have h48 : (48 : UInt8).toNat = 48 := rfl
    have h65 : (65 : UInt8).toNat = 65 := rfl
    have h97 : (97 : UInt8).toNat = 97 := rfl
    omega
  have hspace : isspace c = false := by
    have h32 : c ≠ 32 := by
      rintro rfl
      cases h
    have h13 : (13 : UInt8).toNat = 13 := rfl
    simp only [isspace, Bool.or_eq_false_iff, beq_eq_false_iff_ne, ne_eq, h32, not_false_eq_true,
      Bool.and_eq_false_iff, decide_eq_false_iff_not, UInt8.le_iff_toNat_le, true_and]
    omega
  refine ⟨?_, ?_, hspace, ?_, ?_, ?_, ?_⟩ <;> rintro rfl <;> cases h

/-- The digits before a byte that is no digit, and not the `x` behind a zero. -/
theorem scanHexDigits_append {ds t : Bytes} (hds : ∀ c ∈ ds, isxdigit c = true)
    (ht : ∀ c ∈ t.head?, isxdigit c = false ∧ c ≠ 120 ∧ c ≠ 88) : scanHexDigits (ds ++ t) = ds := by
  have htake : (ds ++ t).takeWhile isxdigit = ds := by
    rw [List.takeWhile_append_of_pos hds]
    cases t with
    | nil => simp
    | cons c t => simp [(ht c rfl).1]
  have hsecond : ∀ x s, ds ++ t = 48 :: x :: s → x ≠ 120 ∧ x ≠ 88 := by
    intro x s he
    match ds, he with
    | [], he =>
      have hhead := (ht 48 (by simp only [List.nil_append] at he; rw [he]; rfl)).1
      cases hhead
    | [d], he =>
      refine (ht x ?_).2
      simp only [List.cons_append, List.nil_append, List.cons.injEq] at he
      rw [he.2]
      rfl
    | d :: x' :: ds, he =>
      simp only [List.cons_append, List.cons.injEq] at he
      rw [← he.2.1]
      exact (xdigit_spec (hds x' (.tail _ (.head _)))).2.2.2.2.2
  unfold scanHexDigits
  split
  · rename_i x s he
    obtain ⟨h₁, h₂⟩ := hsecond x s he
    rw [if_neg (by simp [h₁, h₂]), ← he, htake]
  · exact htake

/-- `%x` reads digits: their number, if `strtoul` can hold it, less what is above 32 bits. -/
theorem sscanfHex_append {ds t : Bytes} (hds : ∀ c ∈ ds, isxdigit c = true) (hne : ds ≠ [])
    (ht : ∀ c ∈ t.head?, isxdigit c = false ∧ c ≠ 120 ∧ c ≠ 88) :
    sscanfHex (ds ++ t) = some (min (digitsValue 16 ds) (2 ^ 64 - 1) % 2 ^ 32) := by
  have hcstr : cstr (ds ++ t) = ds ++ cstr t :=
    List.takeWhile_append_of_pos fun c hc => by simpa using (xdigit_spec (hds c hc)).1
  have ht' : ∀ c ∈ (cstr t).head?, isxdigit c = false ∧ c ≠ 120 ∧ c ≠ 88 := by
    intro c hc
    refine ht c ?_
    cases t with
    | nil => exact hc
    | cons d t =>
      rw [cstr, List.takeWhile_cons] at hc
      split at hc
      · exact hc
      · cases hc
  have hsign : scanSign ((ds ++ cstr t).dropWhile isspace) = (false, ds ++ cstr t) := by
    obtain ⟨c, ds', rfl⟩ := List.exists_cons_of_ne_nil hne
    obtain ⟨-, -, hspace, hminus, hplus, -⟩ := xdigit_spec (hds c (.head _))
    rw [List.cons_append, List.dropWhile_cons_of_neg (by simp [hspace])]
    unfold scanSign
    split
    · rename_i he
      exact absurd (List.cons.inj he).1 hminus
    · rename_i he
      exact absurd (List.cons.inj he).1 hplus
    · rfl
  unfold sscanfHex
  rw [hcstr, hsign]
  dsimp only
  rw [scanHexDigits_append hds ht', if_neg hne]
  congr 1
  split
  · congr 1
    omega
  · rw [if_neg (by decide)]
    congr 1
    omega

/-- A hexadecimal digit. -/
def xdigit (k : Nat) : UInt8 := UInt8.ofNat (if k < 10 then 48 + k else 87 + k)

theorem xdigit_value : ∀ k < 16, isxdigit (xdigit k) = true ∧ digitValue (xdigit k) = k := by
  decide

theorem digitsValue_append (base : Nat) (ds : Bytes) (c : UInt8) :
    digitsValue base (ds ++ [c]) = base * digitsValue base ds + digitValue c := by
  unfold digitsValue
  rw [List.foldl_append]
  rfl

theorem digitsValue_zeros (base z : Nat) (ds : Bytes) :
    digitsValue base (List.replicate z 48 ++ ds) = digitsValue base ds := by
  induction z with
  | zero => rfl
  | succ z ih =>
    rw [← ih]
    show List.foldl _ (base * 0 + digitValue 48) _ = _
    rw [Nat.mul_zero]
    rfl

/-- Every number can be written. -/
theorem exists_xdigits (n : Nat) :
    ∃ ds : Bytes, ds ≠ [] ∧ (∀ c ∈ ds, isxdigit c = true) ∧ digitsValue 16 ds = n := by
  induction n using Nat.strongRecOn with
  | ind n ih =>
    obtain ⟨hdigit, hvalue⟩ := xdigit_value (n % 16) (Nat.mod_lt n (by decide))
    by_cases hlt : n < 16
    · refine ⟨[xdigit (n % 16)], by simp, by simp [hdigit], ?_⟩
      have hone := digitsValue_append 16 [] (xdigit (n % 16))
      rw [List.nil_append, hvalue] at hone
      rw [hone]
      show 16 * 0 + n % 16 = n
      omega
    · obtain ⟨ds, -, hds, hn⟩ := ih (n / 16) (by omega)
      refine ⟨ds ++ [xdigit (n % 16)], by simp, ?_, ?_⟩
      · intro c hc
        obtain hc | hc := List.mem_append.mp hc
        · exact hds c hc
        · rwa [List.mem_singleton.mp hc]
      · rw [digitsValue_append, hn, hvalue]
        omega

/-! ## Parts and lines -/

/-- Two separators, the first two parts without one. -/
theorem split_three {sep : UInt8} {a b c : Bytes} (ha : sep ∉ a) (hb : sep ∉ b) :
    split (a ++ [sep] ++ (b ++ [sep] ++ c)) [sep] 3 = [a, b, c] := by
  unfold split
  rw [if_neg (by simp)]
  obtain ⟨fuel, hfuel⟩ : ∃ fuel, (a ++ [sep] ++ (b ++ [sep] ++ c)).length = fuel + 2 :=
    ⟨a.length + b.length + c.length, by simp only [List.length_append, List.length_singleton]; omega⟩
  rw [hfuel, splitLoop, if_neg (by decide), FirstInfix.append_self ha]
  dsimp only
  rw [splitLoop, if_neg (by decide), FirstInfix.append_self hb]
  dsimp only
  cases fuel with
  | zero => rfl
  | succ fuel => rw [splitLoop, if_pos (by decide)]

/-- What three parts are of. -/
theorem split_three_inv {sep : UInt8} {str a b c : Bytes} (h : split str [sep] 3 = [a, b, c]) :
    str = a ++ [sep] ++ (b ++ [sep] ++ c) ∧ sep ∉ a ∧ sep ∉ b := by
  have hnot : ∀ {l p s : Bytes}, l.dropInfix? [sep] = some (p, s) → sep ∉ p := fun hl hmem => by
    obtain ⟨p₁, p₂, rfl⟩ := List.append_of_mem hmem
    exact FirstInfix.not_infix (by simp) hl ⟨p₁, p₂, by simp⟩
  unfold split at h
  rw [if_neg (by simp)] at h
  generalize str.length = fuel at h
  cases fuel with
  | zero => simp [splitLoop] at h
  | succ fuel =>
    rw [splitLoop, if_neg (by decide)] at h
    cases hstr : str.dropInfix? [sep] with
    | none => simp [hstr] at h
    | some r =>
      obtain ⟨part, rest⟩ := r
      rw [hstr] at h
      injection h with hpart h
      subst hpart
      cases fuel with
      | zero => simp [splitLoop] at h
      | succ fuel =>
        rw [splitLoop, if_neg (by decide)] at h
        cases hrest : rest.dropInfix? [sep] with
        | none => simp [hrest] at h
        | some r =>
          obtain ⟨part', last⟩ := r
          rw [hrest] at h
          injection h with hpart h
          subst hpart
          have hlast : last = c := by
            cases fuel with
            | zero => simpa [splitLoop] using h
            | succ fuel => simpa [splitLoop] using h
          refine ⟨?_, hnot hstr, hnot hrest⟩
          rw [FirstInfix.eq_append hstr, FirstInfix.eq_append hrest, hlast]

/-- Every part but the first has a separator before it. -/
theorem length_split_le (str : Bytes) :
    (split str crlf (-1)).length ≤ str.count 13 + 1 := by
  have hloop : ∀ (fuel : Nat) (count : Int) (last : Bytes),
      (splitLoop crlf (-1) fuel count last).length ≤ last.count 13 + 1 := by
    intro fuel
    induction fuel with
    | zero =>
      intro count last
      exact Nat.le_add_left 1 _
    | succ fuel ih =>
      intro count last
      rw [splitLoop, if_neg (by omega)]
      cases h : last.dropInfix? crlf with
      | none => exact Nat.le_add_left 1 _
      | some r =>
        have hlast := congrArg (List.count 13) (FirstInfix.eq_append h)
        have hcrlf : crlf.count 13 = 1 := rfl
        rw [List.count_append, List.count_append, hcrlf] at hlast
        have hrest := ih (count + 1) r.2
        rw [List.length_cons]
        omega
  unfold split
  rw [if_neg (by decide)]
  exact hloop _ 0 str

/-- Without a line end. -/
def Unbroken (l : Bytes) : Prop := ¬ crlf <:+: l

theorem unbroken_of_not_mem {l : Bytes} (h : (13 : UInt8) ∉ l) : Unbroken l :=
  fun hoccurs => h (hoccurs.subset (.head _))

theorem Unbroken.of_infix {l l' : Bytes} (h : Unbroken l) (hin : l' <:+: l) : Unbroken l' :=
  fun hoccurs => h (hoccurs.trans hin)

theorem unbroken_of_mem_split {str l : Bytes} (h : l ∈ split str crlf (-1)) : Unbroken l := by
  have hloop : ∀ (fuel : Nat) (count : Int) (last : Bytes), last.length ≤ fuel →
      ∀ l ∈ splitLoop crlf (-1) fuel count last, Unbroken l := by
    intro fuel
    induction fuel with
    | zero =>
      intro count last hfuel l hl
      rw [List.mem_singleton.mp hl, List.length_eq_zero_iff.mp (Nat.le_zero.mp hfuel)]
      exact unbroken_of_not_mem nofun
    | succ fuel ih =>
      intro count last hfuel l hl
      rw [splitLoop, if_neg (by omega)] at hl
      cases hlast : last.dropInfix? crlf with
      | none =>
        rw [hlast] at hl
        rw [List.mem_singleton.mp hl]
        rintro ⟨p, s, he⟩
        obtain ⟨_, _, hfound⟩ := FirstInfix.exists_of_infix he.symm
        rw [hlast] at hfound
        cases hfound
      | some r =>
        rw [hlast] at hl
        cases hl with
        | head => exact FirstInfix.not_infix (by decide) hlast
        | tail _ hl =>
          have hlen := congrArg List.length (FirstInfix.eq_append hlast)
          simp only [List.length_append, length_crlf] at hlen
          exact ih (count + 1) r.2 (by omega) l hl
  unfold split at h
  rw [if_neg (by decide)] at h
  exact hloop _ 0 str (le_refl _) l h

/-- A line end ends with its second byte. -/
theorem Unbroken.snoc {l : Bytes} {c : UInt8} (h : Unbroken l) (hc : c ≠ 10) :
    Unbroken (l ++ [c]) := by
  rintro ⟨p, s, he⟩
  obtain rfl | ⟨s, d, rfl⟩ := List.eq_nil_or_concat s
  · rw [List.append_nil, show crlf = [13] ++ [10] from rfl, ← List.append_assoc] at he
    exact hc (by simpa using (List.append_inj' he rfl).2.symm)
  · rw [List.concat_eq_append, ← List.append_assoc] at he
    exact h ⟨p, s, (List.append_inj' he rfl).1⟩

/-- A line end is on one side of a blank. -/
theorem Unbroken.append_blank {a b : Bytes} (ha : Unbroken a) (hb : Unbroken b) :
    Unbroken (a ++ [32] ++ b) := by
  rintro ⟨p, s, he⟩
  have he' : a ++ [32] ++ b = p ++ crlf ++ s := he.symm
  rw [List.append_assoc, List.append_assoc] at he'
  obtain ⟨x, rfl, hx⟩ | ⟨x, rfl, hx⟩ := List.append_eq_append_iff.mp he'
  · cases x with
    | nil => simp [crlf] at hx
    | cons c x =>
      injection hx with _ hx
      exact hb ⟨x, s, by rw [List.append_assoc]; exact hx.symm⟩
  · match x, hx with
    | [], hx => simp [crlf] at hx
    | [c], hx => simp [crlf] at hx
    | c :: d :: x, hx =>
      simp only [crlf, List.cons_append, List.nil_append, List.cons.injEq] at hx
      obtain ⟨rfl, rfl, -⟩ := hx
      exact ha ⟨p, x, by simp [crlf]⟩

/-- A line end behind a line is that of the line, or comes later. -/
theorem Unbroken.cut {l p s t : Bytes} (h : Unbroken l) (he : l ++ crlf ++ t = p ++ crlf ++ s) :
    (p = l ∧ s = t) ∨ ∃ p', p = l ++ crlf ++ p' ∧ t = p' ++ crlf ++ s := by
  rw [List.append_assoc, List.append_assoc] at he
  obtain ⟨a, rfl, ha⟩ | ⟨a, rfl, ha⟩ := List.append_eq_append_iff.mp he
  · -- the other line end begins behind the line
    match a, ha with
    | [], ha => exact .inl ⟨(List.append_nil l), (List.append_cancel_left ha).symm⟩
    | [b], ha =>
      simp [crlf] at ha
    | b :: c :: a, ha =>
      simp only [crlf, List.cons_append, List.nil_append, List.cons.injEq] at ha
      obtain ⟨rfl, rfl, rfl⟩ := ha
      exact .inr ⟨a, by simp [crlf], by simp [crlf]⟩
  · -- it begins in the line
    match a, ha with
    | [], ha => exact .inl ⟨(List.append_nil p).symm, List.append_cancel_left ha⟩
    | [b], ha =>
      simp [crlf] at ha
    | b :: c :: a, ha =>
      simp only [crlf, List.cons_append, List.nil_append, List.cons.injEq] at ha
      obtain ⟨rfl, rfl, -⟩ := ha
      exact absurd ⟨p, a, by simp [crlf]⟩ h

theorem Unbroken.dropInfix? {l : Bytes} (h : Unbroken l) (t : Bytes) :
    (l ++ crlf ++ t).dropInfix? crlf = some (l, t) := by
  refine FirstInfix.eq_some_iff.mpr ⟨rfl, fun p s he => ?_⟩
  obtain ⟨rfl, -⟩ | ⟨p', rfl, -⟩ := h.cut he
  · exact le_refl _
  · simp only [List.length_append]
    omega

theorem Unbroken.dropInfix?_none {l : Bytes} (h : Unbroken l) : l.dropInfix? crlf = none := by
  cases hl : l.dropInfix? crlf with
  | none => rfl
  | some r => exact absurd ⟨r.1, r.2, (FirstInfix.eq_append hl).symm⟩ h

/-- Lines with a separator between them. -/
def joinLines : List Bytes → Bytes
  | [] => []
  | [l] => l
  | l :: ls => l ++ crlf ++ joinLines ls

theorem split_joinLines {ls : List Bytes} (hne : ls ≠ []) (h : ∀ l ∈ ls, Unbroken l) :
    split (joinLines ls) crlf (-1) = ls := by
  have hloop : ∀ (fuel : Nat) (count : Int), (joinLines ls).length ≤ fuel →
      splitLoop crlf (-1) fuel count (joinLines ls) = ls := by
    induction ls with
    | nil => exact absurd rfl hne
    | cons l ls ih =>
      have hl := h l (.head _)
      intro fuel count hfuel
      cases ls with
      | nil =>
        cases fuel with
        | zero => rfl
        | succ fuel =>
          rw [splitLoop, if_neg (by omega), joinLines, hl.dropInfix?_none]
      | cons l' ls =>
        have hjoin : joinLines (l :: l' :: ls) = l ++ crlf ++ joinLines (l' :: ls) := rfl
        rw [hjoin, List.length_append, List.length_append, length_crlf] at hfuel
        obtain ⟨fuel, rfl⟩ : ∃ k, fuel = k + 1 := ⟨fuel - 1, by omega⟩
        rw [splitLoop, if_neg (by omega), hjoin, hl.dropInfix?]
        dsimp only
        rw [ih (by simp) (fun l'' hl'' => h l'' (.tail _ hl'')) fuel (count + 1) (by omega)]
  unfold split
  rw [if_neg (by decide)]
  exact hloop _ 0 (le_refl _)

/-- Lines begin with the first of them. -/
theorem joinLines_append {l : Bytes} {ls : List Bytes} (t : Bytes) :
    ∃ x, joinLines (l :: ls) ++ crlf ++ t = l ++ crlf ++ x := by
  cases ls with
  | nil => exact ⟨t, rfl⟩
  | cons l' ls =>
    refine ⟨joinLines (l' :: ls) ++ crlf ++ t, ?_⟩
    show l ++ crlf ++ joinLines (l' :: ls) ++ crlf ++ t = _
    simp only [List.append_assoc]

/-- A line that is not empty is no line end. -/
theorem Unbroken.ne_crlf {l x : Bytes} (hne : l ≠ []) (h : Unbroken l) (s : Bytes) :
    l ++ crlf ++ x ≠ crlf ++ s := by
  intro he
  obtain ⟨hnil, -⟩ | ⟨p', hnil, -⟩ := h.cut (p := []) he
  · exact hne hnil.symm
  · simp [crlf] at hnil

/-- Lines of which none is empty do not begin with a line end. -/
theorem take_joinLines_ne {ls : List Bytes} (hne : ls ≠ []) (h : ∀ l ∈ ls, l ≠ [] ∧ Unbroken l)
    (t : Bytes) : (joinLines ls ++ (crlf ++ crlf) ++ t).take 2 ≠ crlf := by
  obtain ⟨l, ls, rfl⟩ := List.exists_cons_of_ne_nil hne
  obtain ⟨x, hx⟩ := @joinLines_append l ls (crlf ++ t)
  obtain ⟨hl, hunbroken⟩ := h l (.head _)
  intro htake
  have hall := List.take_append_drop 2 (joinLines (l :: ls) ++ (crlf ++ crlf) ++ t)
  rw [htake] at hall
  refine hunbroken.ne_crlf (x := x) hl _ (.trans ?_ hall.symm)
  rw [← hx]
  simp only [List.append_assoc]

/-- Lines with a line end behind each. -/
theorem flatMap_crlf {ls : List Bytes} (hne : ls ≠ []) :
    ls.flatMap (· ++ crlf) = joinLines ls ++ crlf := by
  induction ls with
  | nil => exact absurd rfl hne
  | cons l ls ih =>
    cases ls with
    | nil =>
      rw [List.flatMap_cons, List.flatMap_nil, List.append_nil]
      rfl
    | cons l' ls =>
      have hjoin : joinLines (l :: l' :: ls) = l ++ crlf ++ joinLines (l' :: ls) := rfl
      rw [List.flatMap_cons, ih (by simp), hjoin]
      simp only [List.append_assoc]

/-- Lines without a line end in them, none of them empty, go up to the first empty
line. -/
theorem dropInfix?_joinLines {ls : List Bytes} (hne : ls ≠ [])
    (h : ∀ l ∈ ls, l ≠ [] ∧ Unbroken l) (t : Bytes) :
    (joinLines ls ++ (crlf ++ crlf) ++ t).dropInfix? (crlf ++ crlf) = some (joinLines ls, t) := by
  refine FirstInfix.eq_some_iff.mpr ⟨rfl, fun p s he => ?_⟩
  have he' : joinLines ls ++ crlf ++ (crlf ++ t) = p ++ crlf ++ (crlf ++ s) := by
    simpa only [List.append_assoc] using he
  clear he
  induction ls generalizing p with
  | nil => exact absurd rfl hne
  | cons l ls ih =>
    have hl := (h l (.head _)).2
    cases ls with
    | nil =>
      obtain ⟨rfl, -⟩ | ⟨p', rfl, -⟩ := hl.cut he'
      · exact le_refl _
      · show l.length ≤ _
        simp only [List.length_append]
        omega
    | cons l' ls =>
      have hjoin : joinLines (l :: l' :: ls) = l ++ crlf ++ joinLines (l' :: ls) := rfl
      have happ : l ++ crlf ++ (joinLines (l' :: ls) ++ crlf ++ (crlf ++ t)) =
          p ++ crlf ++ (crlf ++ s) := by
        rw [← he', hjoin]
        simp only [List.append_assoc]
      obtain ⟨rfl, hrest⟩ | ⟨p', rfl, hrest⟩ := hl.cut happ
      · -- the next line is not empty
        obtain ⟨x, hx⟩ := @joinLines_append l' ls (crlf ++ t)
        obtain ⟨hne', hl'⟩ := h l' (.tail _ (.head _))
        rw [hx] at hrest
        exact absurd hrest.symm (hl'.ne_crlf hne' s)
      · have hle := ih (by simp) (fun l'' hl'' => h l'' (.tail _ hl'')) p' hrest
        rw [hjoin]
        simp only [List.length_append]
        omega

/-! ## Blanks -/

/-- No blank at either end. -/
def Trimmed (s : Bytes) : Prop :=
  (∀ c ∈ s.head?, isBlank c = false) ∧ ∀ c ∈ s.getLast?, isBlank c = false

instance : DecidablePred Trimmed := fun s =>
  decidable_of_iff ((s.head?.all fun c => !isBlank c) = true ∧
      (s.getLast?.all fun c => !isBlank c) = true) <| by
    simp only [Trimmed, Option.all_eq_true, Option.mem_def, Bool.not_eq_true']

theorem infix_trim (s : Bytes) : trim s <:+: s :=
  (List.rdropWhile_prefix _ _).isInfix.trans (List.dropWhile_suffix _).isInfix

theorem trimmed_trim (s : Bytes) : Trimmed (trim s) := by
  have hfirst : ∀ c ∈ (ltrim s).head?, isBlank c = false := by
    intro c hc
    have hhead := List.head?_dropWhile_not isBlank s
    rw [show (s.dropWhile isBlank).head? = some c from hc] at hhead
    simpa using hhead
  constructor
  · intro c hc
    refine hfirst c ?_
    obtain ⟨t, ht⟩ : trim s <+: ltrim s := List.rdropWhile_prefix _ _
    rw [← ht, Option.mem_def, List.head?_append, hc]
    rfl
  · intro c hc
    have hne : trim s ≠ [] := fun hnil => by simp [hnil] at hc
    have hlast : ¬ isBlank ((trim s).getLast hne) = true := List.rdropWhile_last_not _ _ hne
    rw [Option.mem_def, List.getLast?_eq_some_getLast hne] at hc
    rw [← Option.some.inj hc]
    simpa using hlast

theorem rtrim_eq {s : Bytes} (h : Trimmed s) : rtrim s = s := by
  refine List.rdropWhile_eq_self_iff.mpr fun hne => ?_
  rw [h.2 _ (List.getLast?_eq_some_getLast hne)]
  decide

theorem ltrim_eq {s : Bytes} (h : Trimmed s) : ltrim s = s := by
  cases s with
  | nil => rfl
  | cons c s => exact List.dropWhile_cons_of_neg (by simp [h.1 c rfl])

theorem trim_eq {s : Bytes} (h : Trimmed s) : trim s = s := by
  rw [trim, ltrim_eq h, rtrim_eq h]

theorem rtrim_append {s after : Bytes} (hafter : ∀ c ∈ after, isBlank c = true) :
    rtrim (s ++ after) = rtrim s := by
  rw [rtrim, List.rdropWhile, List.reverse_append, List.dropWhile_append_of_pos fun c hc =>
    hafter c (List.mem_reverse.mp hc)]
  rfl

/-- Blanks around a word. -/
theorem trim_blanks {s before after : Bytes} (hbefore : ∀ c ∈ before, isBlank c = true)
    (hafter : ∀ c ∈ after, isBlank c = true) (h : Trimmed s) : trim (before ++ s ++ after) = s := by
  have hr : rtrim (s ++ after) = s := by rw [rtrim_append hafter, rtrim_eq h]
  rw [trim, ltrim, List.append_assoc, List.dropWhile_append_of_pos hbefore]
  cases s with
  | nil =>
    rw [List.nil_append, List.dropWhile_eq_nil_iff.mpr hafter]
    rfl
  | cons c s =>
    rw [List.cons_append, List.dropWhile_cons_of_neg (by simp [h.1 c rfl])]
    exact hr

theorem trim_blank {s : Bytes} (h : Trimmed s) : trim (32 :: s) = s := by
  have htrim := @trim_blanks s [32] [] (by simp [isBlank]) (by simp) h
  rwa [List.append_nil] at htrim

/-! ## Blanks in strings of C -/

theorem blank_spec {c : UInt8} (h : isBlank c = true) :
    c ≠ 0 ∧ isspace c = true ∧ isdigit c = false := by
  simp only [isBlank, Bool.or_eq_true, beq_iff_eq] at h
  obtain rfl | rfl := h <;> decide

theorem not_mem_cstr (s : Bytes) : (0 : UInt8) ∉ cstr s := fun hmem => by
  simpa using List.mem_takeWhile_imp hmem

theorem infix_cstr (s : Bytes) : cstr s <:+: s := (List.takeWhile_prefix _).isInfix

theorem exists_rtrim (s : Bytes) :
    ∃ after : Bytes, s = rtrim s ++ after ∧ ∀ c ∈ after, isBlank c = true :=
  ⟨s.rtakeWhile isBlank, List.rdropWhile_append_rtakeWhile.symm, fun _ => List.mem_rtakeWhile_imp⟩

theorem cstr_ltrim (s : Bytes) : cstr (ltrim s) = ltrim (cstr s) := by
  induction s with
  | nil => rfl
  | cons c s ih =>
    by_cases hc : isBlank c = true
    · have hcstr : cstr (c :: s) = c :: cstr s :=
        List.takeWhile_cons_of_pos (by simpa using (blank_spec hc).1)
      rw [hcstr, ltrim, ltrim, List.dropWhile_cons_of_pos hc, List.dropWhile_cons_of_pos hc]
      exact ih
    · have hcstr : ltrim (cstr (c :: s)) = cstr (c :: s) := by
        rw [cstr, List.takeWhile_cons]
        split
        · exact List.dropWhile_cons_of_neg hc
        · rfl
      rw [hcstr, ltrim, List.dropWhile_cons_of_neg hc]

theorem rtrim_cstr (s : Bytes) : rtrim (cstr (rtrim s)) = rtrim (cstr s) := by
  obtain ⟨after, hs, hafter⟩ := exists_rtrim s
  by_cases hnul : (0 : UInt8) ∈ rtrim s
  · have hcstr : cstr (rtrim s ++ after) = cstr (rtrim s) := by
      rw [cstr, List.takeWhile_append, if_neg]
      · rfl
      · intro hlen
        refine not_mem_cstr (rtrim s) ?_
        rwa [cstr, (List.takeWhile_prefix _).eq_of_length hlen]
    rw [← hcstr, ← hs]
  · have hnul' : (0 : UInt8) ∉ s := by
      rw [hs, List.mem_append, not_or]
      exact ⟨hnul, fun hmem => (blank_spec (hafter 0 hmem)).1 rfl⟩
    rw [cstr_eq hnul, cstr_eq hnul']
    exact List.rdropWhile_idempotent _ _

/-- The blanks around a string do not matter for what is left of it as a string of C. -/
theorem trim_cstr_trim (s : Bytes) : trim (cstr (trim s)) = trim (cstr s) := by
  calc trim (cstr (trim s))
      = rtrim (cstr (ltrim (trim s))) := by rw [trim, ← cstr_ltrim]
    _ = rtrim (cstr (rtrim (ltrim s))) := by rw [ltrim_eq (trimmed_trim s), trim]
    _ = rtrim (cstr (ltrim s)) := rtrim_cstr _
    _ = trim (cstr s) := by rw [cstr_ltrim, ← trim]

theorem scanSign_append {s after : Bytes} (hne : s ≠ []) :
    scanSign (s ++ after) = ((scanSign s).1, (scanSign s).2 ++ after) := by
  obtain ⟨c, s, rfl⟩ := List.exists_cons_of_ne_nil hne
  rw [List.cons_append]
  unfold scanSign
  split <;> simp_all

/-- What stands behind a number and is no digit does not matter. -/
theorem strtol_append {s after : Bytes} (hafter : ∀ c ∈ after, isBlank c = true) :
    strtol (s ++ after) = strtol s := by
  have hdigits : ∀ t : Bytes, (t ++ after).takeWhile isdigit = t.takeWhile isdigit := by
    have hnone : after.takeWhile isdigit = [] := by
      cases after with
      | nil => rfl
      | cons c after =>
        have hc := (blank_spec (hafter c (.head _))).2.2
        exact List.takeWhile_cons_of_neg (by simp [hc])
    intro t
    rw [List.takeWhile_append, hnone, List.append_nil]
    split
    · rename_i hlen
      exact ((List.takeWhile_prefix _).eq_of_length hlen).symm
    · rfl
  unfold strtol
  by_cases hall : s.dropWhile isspace = []
  · have hspace : (s ++ after).dropWhile isspace = [] := by
      rw [List.dropWhile_append, hall, List.dropWhile_eq_nil_iff.mpr fun c hc =>
        (blank_spec (hafter c hc)).2.1]
      rfl
    rw [hall, hspace]
  · rw [List.dropWhile_append, if_neg (by simpa using hall), scanSign_append hall]
    dsimp only
    rw [hdigits]

theorem strtol_trim (s : Bytes) : strtol (trim s) = strtol s := by
  obtain ⟨after, hs, hafter⟩ := exists_rtrim (ltrim s)
  have hspace : ∀ c ∈ s.takeWhile isBlank, isspace c = true := fun c hc =>
    (blank_spec (List.mem_takeWhile_imp hc)).2.1
  have hleft : (ltrim s).dropWhile isspace = s.dropWhile isspace :=
    (List.dropWhile_append_of_pos hspace).symm.trans
      (congrArg (List.dropWhile isspace) List.takeWhile_append_dropWhile)
  calc strtol (trim s) = strtol (rtrim (ltrim s) ++ after) := (strtol_append hafter).symm
    _ = strtol (ltrim s) := by rw [← hs]
    _ = strtol s := by rw [strtol, strtol, hleft]

theorem atoi_cstr (s : Bytes) : atoi (trim (cstr s)) = atoi s := by
  rw [atoi, cstr_eq fun hmem => not_mem_cstr s ((infix_trim _).subset hmem), strtol_trim]
  rfl

end Brickred
