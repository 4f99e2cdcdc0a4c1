import Mathlib.Data.List.Lex
import Mathlib.Data.List.DropRight
import Mathlib.Data.UInt
import Brickred.Lib.FirstInfix

/-!
# Byte strings (`string_util.cc`) and the C library's conversions

A `std::string` is its bytes. The conversions are those of the C locale, with
64-bit `long` and 32-bit `int`.
-/

namespace Brickred

/-- The bytes of a `std::string`, of a `char` array or of a buffer. -/
abbrev Bytes := List UInt8

/-- The bytes of a literal. -/
def bytes (s : String) : Bytes := s.toList.map fun c => UInt8.ofNat c.toNat

def crlf : Bytes := [13, 10]

@[simp] theorem length_crlf : crlf.length = 2 := rfl

/-- A string read through `c_str()` ends at its first NUL. -/
def cstr (s : Bytes) : Bytes := s.takeWhile (· ≠ 0)

namespace StringUtil

/-- `string_util::find`: the offset of the first occurrence. -/
def find (str keyword : Bytes) : Option Nat :=
  if keyword = [] then none else (str.dropInfix? keyword).map fun r => r.1.length

/-- The loop of `string_util::split`; `count` is the number of parts so far. Every
round drops a separator, so as many rounds as there are bytes are enough. -/
def splitLoop (sep : Bytes) (maxSplit : Int) : Nat → Int → Bytes → List Bytes
  | 0, _, last => [last]
  | fuel + 1, count, last =>
    if maxSplit > 0 ∧ count + 1 ≥ maxSplit then
      [last]
    else
      match last.dropInfix? sep with
      | none => [last]
      | some (part, rest) => part :: splitLoop sep maxSplit fuel (count + 1) rest

/-- `string_util::split` on a string with its length. -/
def split (str sep : Bytes) (maxSplit : Int) : List Bytes :=
  if sep = [] then [str] else splitLoop sep maxSplit str.length 0 str

/-- The default white space of `trim`. -/
def isBlank (c : UInt8) : Bool := c == 32 || c == 9

def ltrim (str : Bytes) : Bytes := str.dropWhile isBlank
def rtrim (str : Bytes) : Bytes := str.rdropWhile isBlank

/-- `string_util::trim` -/
def trim (str : Bytes) : Bytes := rtrim (ltrim str)

def tolower (c : UInt8) : UInt8 := if 65 ≤ c ∧ c ≤ 90 then c + 32 else c

/-- `string_util::toLower` -/
def toLower (str : Bytes) : Bytes := str.map tolower

/-- `string_util::caseInsensitiveEqual` -/
def caseInsensitiveEqual (lhs rhs : Bytes) : Bool :=
  lhs.length == rhs.length && (lhs.zip rhs).all fun c => tolower c.1 == tolower c.2

/-- `string_util::CaseInsensitiveLess` -/
def caseInsensitiveLess : Bytes → Bytes → Bool
  | c₁ :: lhs, c₂ :: rhs =>
    if tolower c₁ ≠ tolower c₂ then decide (tolower c₁ < tolower c₂)
    else caseInsensitiveLess lhs rhs
  | lhs, rhs => decide (lhs.length < rhs.length)

/-- `string_util::toString` of an unsigned integer. -/
def toString (n : Nat) : Bytes := (Nat.toDigits 10 n).map fun c => UInt8.ofNat c.toNat

/-- `string_util::toString` of an `int`. -/
def toStringInt (i : Int) : Bytes :=
  if i < 0 then 45 :: toString i.natAbs else toString i.natAbs

end StringUtil

/-! ## `atoi` and `sscanf` -/

def isspace (c : UInt8) : Bool := c == 32 || (9 ≤ c && c ≤ 13)
def isdigit (c : UInt8) : Bool := 48 ≤ c && c ≤ 57
def isxdigit (c : UInt8) : Bool := isdigit c || (65 ≤ c && c ≤ 70) || (97 ≤ c && c ≤ 102)

/-- The value of a digit, decimal or hexadecimal. -/
def digitValue (c : UInt8) : Nat :=
  if isdigit c then c.toNat - 48 else if c ≤ 70 then c.toNat - 55 else c.toNat - 87

def digitsValue (base : Nat) (digits : Bytes) : Nat :=
  digits.foldl (fun v c => base * v + digitValue c) 0

/-- An optional sign: whether it is a minus, and what follows. -/
def scanSign : Bytes → Bool × Bytes
  | 45 :: s => (true, s)
  | 43 :: s => (false, s)
  | s => (false, s)

/-- `strtol` in base ten: a value that does not fit is clamped. -/
def strtol (s : Bytes) : Int :=
  let (neg, s) := scanSign (s.dropWhile isspace)
  let v : Int := digitsValue 10 (s.takeWhile isdigit)
  if neg then max (-2 ^ 63) (-v) else min (2 ^ 63 - 1) v

/-- `atoi`, which converts what `strtol` returns to `int`. -/
def atoi (s : Bytes) : Int := Int.bmod (strtol (cstr s)) (2 ^ 32)

/-- The digits that `%x` takes, behind an optional `0x`. -/
def scanHexDigits : Bytes → Bytes
  | 48 :: x :: s =>
    if x = 120 ∨ x = 88 then 48 :: s.takeWhile isxdigit else (48 :: x :: s).takeWhile isxdigit
  | s => s.takeWhile isxdigit

/-- `sscanf(s, "%x", &v)` into an `unsigned int`: `none` if nothing is converted.
The value is `strtoul`'s, cut to 32 bits. -/
def sscanfHex (s : Bytes) : Option Nat :=
  let (neg, s) := scanSign ((cstr s).dropWhile isspace)
  let digits := scanHexDigits s
  if digits = [] then
    none
  else
    let v := digitsValue 16 digits
    let v := if v ≥ 2 ^ 64 then 2 ^ 64 - 1 else if neg then (2 ^ 64 - v) % 2 ^ 64 else v
    some (v % 2 ^ 32)

/-! ## What they compute -/

theorem cstr_eq {s : Bytes} (h : (0 : UInt8) ∉ s) : cstr s = s := by
  refine List.takeWhile_eq_self_iff.mpr fun c hc => ?_
  simp only [ne_eq, decide_not, Bool.not_eq_true', decide_eq_false_iff_not]
  rintro rfl
  exact h hc

namespace StringUtil

theorem find_eq_some {str keyword : Bytes} {n : Nat} : find str keyword = some n ↔
    keyword ≠ [] ∧ ∃ p s, str.dropInfix? keyword = some (p, s) ∧ p.length = n := by
  unfold find
  split
  · rename_i h
    simp [h]
  · rename_i h
    simp [h]

theorem find_eq_none {str keyword : Bytes} (h : keyword ≠ []) :
    find str keyword = none ↔ str.dropInfix? keyword = none := by
  simp [find, h]

variable {str keyword x : Bytes} {n : Nat}

theorem find_le (h : find str keyword = some n) : n + keyword.length ≤ str.length := by
  obtain ⟨-, p, s, hr, rfl⟩ := find_eq_some.mp h
  rw [FirstInfix.eq_append hr]
  simp only [List.length_append]
  omega

theorem find_spec (h : find str keyword = some n) :
    str = str.take n ++ keyword ++ str.drop (n + keyword.length) := by
  obtain ⟨-, p, s, hr, rfl⟩ := find_eq_some.mp h
  have hstr := FirstInfix.eq_append hr
  have htake : str.take p.length = p := by
    rw [hstr, List.append_assoc, List.take_left]
  have hdrop : str.drop (p.length + keyword.length) = s := by
    rw [hstr, ← List.length_append, List.drop_left]
  rw [htake, hdrop, ← hstr]

/-- More input does not move what is found. -/
theorem find_append (h : find str keyword = some n) (x : Bytes) :
    find (str ++ x) keyword = some n := by
  obtain ⟨hne, p, s, hr, hn⟩ := find_eq_some.mp h
  exact find_eq_some.mpr ⟨hne, p, s ++ x, FirstInfix.append hr x, hn⟩

/-- What is found in a first part does not need the rest. -/
theorem find_of_append (h : find (str ++ x) keyword = some n) (hle : n + keyword.length ≤ str.length) :
    find str keyword = some n := by
  obtain ⟨hne, p, s, hr, rfl⟩ := find_eq_some.mp h
  obtain ⟨s', hr'⟩ := FirstInfix.of_append hr hle
  exact find_eq_some.mpr ⟨hne, p, s', hr', rfl⟩

/-- What only more input lets be found ends behind what was there. -/
theorem length_lt_of_find_append (h : find str keyword = none)
    (h' : find (str ++ x) keyword = some n) : str.length < n + keyword.length := by
  obtain ⟨hne, p, s, hr, rfl⟩ := find_eq_some.mp h'
  exact FirstInfix.length_lt_of_append ((find_eq_none hne).mp h) hr

theorem caseInsensitiveEqual_iff {lhs rhs : Bytes} :
    caseInsensitiveEqual lhs rhs = true ↔ toLower lhs = toLower rhs := by
  unfold caseInsensitiveEqual toLower
  induction lhs generalizing rhs with
  | nil => cases rhs <;> simp
  | cons c lhs ih =>
    cases rhs with
    | nil => simp
    | cons d rhs =>
      have h := @ih rhs
      simp only [List.length_cons, List.zip_cons_cons, List.all_cons, List.map_cons,
        List.cons.injEq, Bool.and_eq_true, beq_iff_eq, Nat.add_right_cancel_iff] at h ⊢
      rw [← h]
      exact and_left_comm

/-- The values `CaseInsensitiveLess` compares. -/
def lowerValues (str : Bytes) : List Nat := (toLower str).map UInt8.toNat

theorem lowerValues_inj {lhs rhs : Bytes} :
    lowerValues lhs = lowerValues rhs ↔ toLower lhs = toLower rhs :=
  (List.map_injective_iff.mpr fun _ _ => UInt8.toNat_inj.mp).eq_iff

theorem caseInsensitiveLess_iff {lhs rhs : Bytes} :
    caseInsensitiveLess lhs rhs = true ↔ lowerValues lhs < lowerValues rhs := by
  unfold lowerValues toLower
  induction lhs generalizing rhs with
  | nil => cases rhs <;> simp [caseInsensitiveLess]
  | cons c lhs ih =>
    cases rhs with
    | nil => simp [caseInsensitiveLess]
    | cons d rhs =>
      simp only [caseInsensitiveLess, List.map_cons, List.cons_lt_cons_iff]
      by_cases heq : tolower c = tolower d
      · simpa [heq] using ih
      · simp [heq, UInt8.lt_iff_toNat_lt, UInt8.toNat_inj]

instance : IsStrictWeakOrder Bytes fun lhs rhs => caseInsensitiveLess lhs rhs = true := by
  have h : (fun lhs rhs => caseInsensitiveLess lhs rhs = true) =
      Order.Preimage lowerValues (fun a b : List Nat => a < b) := by
    funext lhs rhs
    exact propext caseInsensitiveLess_iff
  have : IsStrictWeakOrder (List Nat) (· < ·) := isStrictWeakOrder_of_isOrderConnected
  rw [h]
  infer_instance

/-- Two keys are one key of a header map if they differ in case only. -/
theorem equiv_iff {lhs rhs : Bytes} :
    (¬ caseInsensitiveLess lhs rhs = true ∧ ¬ caseInsensitiveLess rhs lhs = true) ↔
      toLower lhs = toLower rhs := by
  rw [caseInsensitiveLess_iff, caseInsensitiveLess_iff, not_lt, not_lt, and_comm,
    ← lowerValues_inj]
  exact le_antisymm_iff.symm

end StringUtil

end Brickred
