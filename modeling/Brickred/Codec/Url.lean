import Brickred.Text.StringUtil

/-!
# Percent encoding (`codec/url.cc`)

The two loops write into a buffer of a given size, each with its own test of the
room left. `none` stands for a byte read or stored outside its array.
-/

namespace Brickred

namespace Codec

/-- `s_hex_to_letter` -/
def hexToLetter : Bytes := bytes "0123456789ABCDEF"

/-- The cases of `isUnreservedChar`. -/
def unreservedChars : Bytes :=
  bytes "0123456789abcdefghijklmnopqrstuvwxyzABCDEFGHIJKLMNOPQRSTUVWXYZ-._~"

def isUnreservedChar (c : UInt8) : Bool := unreservedChars.contains c

/-- `letterToHex`. A byte above 127 is a negative `char`, which no case is. -/
def letterToHex (c : UInt8) : Int :=
  match c with
  | 48 => 0
  | 49 => 1
  | 50 => 2
  | 51 => 3
  | 52 => 4
  | 53 => 5
  | 54 => 6
  | 55 => 7
  | 56 => 8
  | 57 => 9
  | 97 | 65 => 10
  | 98 | 66 => 11
  | 99 | 67 => 12
  | 100 | 68 => 13
  | 101 | 69 => 14
  | 102 | 70 => 15
  | _ => -1

/-- A store at `out`, which `outSize` bytes are there for. -/
def store (outSize : Nat) (out : Bytes) (c : UInt8) : Option Bytes :=
  if out.length < outSize then some (out ++ [c]) else none

/-- The loop of `urlEncode`: whether it comes to the end, and what it has written. -/
def urlEncodeLoop (outSize : Nat) : Bytes → Bytes → Option (Bool × Bytes)
  | [], out => some (true, out)
  | c :: p, out =>
    if isUnreservedChar c then
      if outSize - out.length < 1 then some (false, out)
      else do
        let out ← store outSize out c
        urlEncodeLoop outSize p out
    else
      if outSize - out.length < 3 then some (false, out)
      else do
        let out ← store outSize out 37
        let out ← store outSize out (hexToLetter.getD (c >>> 4).toNat 0)
        let out ← store outSize out (hexToLetter.getD (c &&& 0x0f).toNat 0)
        urlEncodeLoop outSize p out

/-- The loop of `urlDecode`. -/
def urlDecodeLoop (outSize : Nat) : Bytes → Bytes → Option (Bool × Bytes)
  | [], out => some (true, out)
  | c :: p, out =>
    if c = 37 then
      if p.length + 1 < 3 ∨ outSize - out.length < 1 then some (false, out)
      else
        match p with
        | h :: l :: p =>
          let high := letterToHex h
          let low := letterToHex l
          if high < 0 ∨ low < 0 then some (false, out)
          else do
            let out ← store outSize out (UInt8.ofNat (high * 0x10 + low).toNat)
            urlDecodeLoop outSize p out
        | _ => none
    else
      if outSize - out.length < 1 then some (false, out)
      else do
        let out ← store outSize out c
        urlDecodeLoop outSize p out

/-- What is returned, with what has been written: the pointers are apart by a
`ptrdiff_t`, which becomes an `int`. -/
def returned : Bool × Bytes → Int × Bytes
  | (ok, out) => (if ok then Int.bmod out.length (2 ^ 32) else -1, out)

/-- `urlEncode` into a buffer -/
def urlEncode (str : Bytes) (outSize : Nat) : Option (Int × Bytes) :=
  (urlEncodeLoop outSize str []).map returned

/-- `urlDecode` into a buffer -/
def urlDecode (str : Bytes) (outSize : Nat) : Option (Int × Bytes) :=
  (urlDecodeLoop outSize str []).map returned

/-- The rest of the overloads that return a string. -/
def toStr : Int × Bytes → Bytes
  | (count, output) => if count ≤ 0 then [] else output.take count.toNat

/-- `urlEncode` to a string -/
def urlEncodeStr (str : Bytes) : Option Bytes :=
  if str.length = 0 then some [] else (urlEncode str (str.length * 3)).map toStr

/-- `urlDecode` to a string -/
def urlDecodeStr (str : Bytes) : Option Bytes :=
  if str.length = 0 then some [] else (urlDecode str str.length).map toStr

@[simp] theorem store_eq {outSize : Nat} {out : Bytes} {c : UInt8} (h : out.length < outSize) :
    store outSize out c = some (out ++ [c]) := if_pos h

/-! ## The characters -/

/-- Letters, digits and the four marks. -/
def Unreserved (c : UInt8) : Prop :=
  isdigit c = true ∨ (65 ≤ c ∧ c ≤ 90) ∨ (97 ≤ c ∧ c ≤ 122) ∨ c ∈ bytes "-._~"

instance (c : UInt8) : Decidable (Unreserved c) := inferInstanceAs (Decidable (_ ∨ _))

theorem forall_byte {P : UInt8 → Prop} (h : ∀ n < 256, P (UInt8.ofNat n)) (c : UInt8) : P c := by
  rw [← UInt8.ofNat_toNat (x := c)]
  exact h c.toNat c.toNat_lt

theorem isUnreservedChar_iff (c : UInt8) : isUnreservedChar c = true ↔ Unreserved c := by
  revert c
  exact forall_byte (by decide +kernel)

theorem letterToHex_eq (c : UInt8) :
    letterToHex c = if isxdigit c = true then (digitValue c : Int) else -1 := by
  revert c
  exact forall_byte (by decide +kernel)

/-- An upper-case hexadecimal digit. -/
def UpperDigit (c : UInt8) : Prop := isdigit c = true ∨ (65 ≤ c ∧ c ≤ 70)

instance (c : UInt8) : Decidable (UpperDigit c) := inferInstanceAs (Decidable (_ ∨ _))

/-- The two letters of a byte, and the byte they are read as. -/
theorem letters_spec (c : UInt8) :
    let h := hexToLetter.getD (c >>> 4).toNat 0
    let l := hexToLetter.getD (c &&& 0x0f).toNat 0
    UpperDigit h ∧ UpperDigit l ∧ isxdigit h = true ∧ isxdigit l = true ∧
      UInt8.ofNat (digitValue h * 16 + digitValue l) = c := by
  revert c
  exact forall_byte (by decide +kernel)

/-! ## What is written -/

/-- Unreserved characters and triples. -/
inductive Escaped : Bytes → Prop where
  | nil : Escaped []
  | char {c out} : Unreserved c → Escaped out → Escaped (c :: out)
  | triple {h l out} : UpperDigit h → UpperDigit l → Escaped out → Escaped (37 :: h :: l :: out)

/-- The characters of a byte. -/
def escapeChar (c : UInt8) : Bytes :=
  if Unreserved c then [c]
  else [37, hexToLetter.getD (c >>> 4).toNat 0, hexToLetter.getD (c &&& 0x0f).toNat 0]

/-- One byte for an unreserved byte, three for another. -/
def escapedSize (str : Bytes) : Nat := (str.map fun c => if Unreserved c then 1 else 3).sum

theorem escapedSize_cons (c : UInt8) (str : Bytes) :
    escapedSize (c :: str) = (if Unreserved c then 1 else 3) + escapedSize str := by
  rw [escapedSize, escapedSize, List.map_cons, List.sum_cons]

theorem length_escape (str : Bytes) : (str.flatMap escapeChar).length = escapedSize str := by
  induction str with
  | nil => rfl
  | cons c str ih =>
    rw [List.flatMap_cons, List.length_append, ih, escapedSize_cons, escapeChar]
    split <;> rfl

theorem length_le_escapedSize (str : Bytes) :
    str.length ≤ escapedSize str ∧ escapedSize str ≤ str.length * 3 := by
  induction str with
  | nil => exact ⟨le_refl _, le_refl _⟩
  | cons c str ih =>
    rw [escapedSize_cons, List.length_cons]
    split <;> omega

theorem urlEncodeLoop_spec {outSize : Nat} (str out : Bytes) (hle : out.length ≤ outSize) :
    ∃ ok out', urlEncodeLoop outSize str out = some (ok, out ++ out') ∧
      (out ++ out').length ≤ outSize ∧ Escaped out' ∧
      (ok = true ↔ out.length + escapedSize str ≤ outSize) ∧
      (ok = true → out' = str.flatMap escapeChar) := by
  induction str generalizing out with
  | nil =>
    refine ⟨true, [], ?_, ?_, .nil, ?_, fun _ => rfl⟩
    · rw [urlEncodeLoop, List.append_nil]
    · rwa [List.append_nil]
    · simpa [escapedSize] using hle
  | cons c str ih =>
    rw [urlEncodeLoop, escapedSize_cons, List.flatMap_cons, escapeChar]
    by_cases hc : Unreserved c
    · rw [if_pos ((isUnreservedChar_iff c).mpr hc), if_pos hc, if_pos hc]
      by_cases hroom : outSize - out.length < 1
      · rw [if_pos hroom]
        exact ⟨false, [], by rw [List.append_nil], by rwa [List.append_nil], .nil,
          by simp; omega, nofun⟩
      · rw [if_neg hroom, store_eq (by omega)]
        obtain ⟨ok, out', hloop, hlen, hout, hok, heq⟩ :=
          ih (out ++ [c]) (by rw [List.length_append, List.length_singleton]; omega)
        rw [List.append_assoc] at hloop hlen
        refine ⟨ok, c :: out', hloop, hlen, .char hc hout, ?_, fun h => by rw [heq h]; rfl⟩
        rw [hok, List.length_append, List.length_singleton, Nat.add_assoc]
    · rw [if_neg (fun h => hc ((isUnreservedChar_iff c).mp h)), if_neg hc, if_neg hc]
      by_cases hroom : outSize - out.length < 3
      · rw [if_pos hroom]
        exact ⟨false, [], by rw [List.append_nil], by rwa [List.append_nil], .nil,
          by simp; omega, nofun⟩
      · rw [if_neg hroom]
        obtain ⟨hh, hl, -⟩ := letters_spec c
        generalize hexToLetter.getD (c >>> 4).toNat 0 = h at hh
        generalize hexToLetter.getD (c &&& 0x0f).toNat 0 = l at hl
        have h₁ : store outSize out 37 = some (out ++ [37]) := store_eq (by omega)
        have h₂ : store outSize (out ++ [37]) h = some (out ++ [37] ++ [h]) :=
          store_eq (by rw [List.length_append, List.length_singleton]; omega)
        have h₃ : store outSize (out ++ [37] ++ [h]) l = some (out ++ [37] ++ [h] ++ [l]) :=
          store_eq (by simp only [List.length_append, List.length_singleton]; omega)
        obtain ⟨ok, out', hloop, hlen, hout, hok, heq⟩ := ih (out ++ [37] ++ [h] ++ [l])
          (by simp only [List.length_append, List.length_singleton]; omega)
        have hcat : out ++ [37] ++ [h] ++ [l] ++ out' = out ++ (37 :: h :: l :: out') := by simp
        rw [hcat] at hloop hlen
        simp only [h₁, h₂, h₃, Option.bind_eq_bind, Option.bind_some]
        refine ⟨ok, 37 :: h :: l :: out', hloop, hlen, .triple hh hl hout, ?_,
          fun h => by rw [heq h]; rfl⟩
        rw [hok]
        simp only [List.length_append, List.length_singleton]
        omega

/-! ## What is read -/

/-- `str` decodes to `out` up to `rest`. -/
inductive Decodes : Bytes → Bytes → Bytes → Prop where
  | refl {str} : Decodes str [] str
  | char {c str out rest} : c ≠ 37 → Decodes str out rest → Decodes (c :: str) (c :: out) rest
  | escape {h l str out rest} : isxdigit h = true → isxdigit l = true → Decodes str out rest →
      Decodes (37 :: h :: l :: str) (UInt8.ofNat (digitValue h * 16 + digitValue l) :: out) rest

/-- A `%` that is not followed by two hexadecimal digits. -/
def BadEscape (str : Bytes) : Prop :=
  ∃ t, str = 37 :: t ∧ ¬ ∃ h l t', t = h :: l :: t' ∧ isxdigit h = true ∧ isxdigit l = true

variable {str out out' rest rest' : Bytes}

theorem Decodes.trans (h₁ : Decodes str out rest) (h₂ : Decodes rest out' rest') :
    Decodes str (out ++ out') rest' := by
  induction h₁ with
  | refl => exact h₂
  | char hc _ ih => exact .char hc (ih h₂)
  | escape hh hl _ ih => exact .escape hh hl (ih h₂)

theorem Decodes.length_le (h : Decodes str out rest) : out.length + rest.length ≤ str.length := by
  induction h with
  | refl => rw [List.length_nil, Nat.zero_add]
  | char _ _ ih =>
    rw [List.length_cons, List.length_cons]
    omega
  | escape _ _ _ ih =>
    rw [List.length_cons, List.length_cons, List.length_cons, List.length_cons]
    omega

theorem letterToHex_neg_iff {h l : UInt8} :
    (letterToHex h < 0 ∨ letterToHex l < 0) ↔ ¬ (isxdigit h = true ∧ isxdigit l = true) := by
  have hneg (c : UInt8) : letterToHex c < 0 ↔ ¬ isxdigit c = true := by
    rw [letterToHex_eq]
    split <;> simp_all
  rw [hneg, hneg, not_and_or]

theorem urlDecodeLoop_spec {outSize : Nat} (str out : Bytes) (hle : out.length ≤ outSize) :
    ∃ ok out', urlDecodeLoop outSize str out = some (ok, out ++ out') ∧
      (out ++ out').length ≤ outSize ∧ (ok = true → Decodes str out' []) ∧
      (ok = false → ∃ out₁ rest, Decodes str out₁ rest ∧
        (BadEscape rest ∨ rest ≠ [] ∧ outSize ≤ out.length + out₁.length)) := by
  have hfail {str out : Bytes} (hle : out.length ≤ outSize)
      (h : BadEscape str ∨ str ≠ [] ∧ outSize ≤ out.length) :
      ∃ ok out', some (false, out) = some (ok, out ++ out') ∧ (out ++ out').length ≤ outSize ∧
        (ok = true → Decodes str out' []) ∧ (ok = false → ∃ out₁ rest, Decodes str out₁ rest ∧
          (BadEscape rest ∨ rest ≠ [] ∧ outSize ≤ out.length + out₁.length)) :=
    ⟨false, [], by rw [List.append_nil], by rwa [List.append_nil], nofun, fun _ =>
      ⟨[], str, .refl, h⟩⟩
  induction str, out using urlDecodeLoop.induct outSize with
  | case1 out =>
    refine ⟨true, [], ?_, ?_, fun _ => .refl, nofun⟩
    · rw [urlDecodeLoop, List.append_nil]
    · rwa [List.append_nil]
  | case2 p out hstop =>
    rw [urlDecodeLoop.eq_def]
    dsimp only
    rw [if_pos rfl, if_pos hstop]
    refine hfail hle (hstop.imp (fun hshort => ⟨p, rfl, ?_⟩) fun hroom => ⟨nofun, by omega⟩)
    rintro ⟨h, l, t, rfl, -⟩
    simp only [List.length_cons] at hshort
    omega
  | case3 out h l p high low hdigits hroom =>
    rw [urlDecodeLoop, if_pos rfl, if_neg hroom, if_pos hdigits]
    refine hfail hle (.inl ⟨_, rfl, ?_⟩)
    rintro ⟨h', l', t, heq, hxdigit⟩
    cases heq
    exact letterToHex_neg_iff.mp hdigits hxdigit
  | case4 out h l p high low hdigits hroom ih =>
    rw [urlDecodeLoop, if_pos rfl, if_neg hroom, if_neg hdigits]
    obtain ⟨hh, hl⟩ := not_not.mp (mt letterToHex_neg_iff.mpr hdigits)
    have hbyte : UInt8.ofNat (high * 0x10 + low).toNat =
        UInt8.ofNat (digitValue h * 16 + digitValue l) := by
      have hhigh : high = digitValue h := (letterToHex_eq h).trans (if_pos hh)
      have hlow : low = digitValue l := (letterToHex_eq l).trans (if_pos hl)
      rw [hhigh, hlow]
      rfl
    rw [hbyte, store_eq (by omega)]
    obtain ⟨ok, out', hloop, hlen, hok, hno⟩ :=
      ih (out ++ [UInt8.ofNat (digitValue h * 16 + digitValue l)])
        (by rw [List.length_append, List.length_singleton]; omega)
    rw [List.append_assoc] at hloop hlen
    refine ⟨ok, _, hloop, hlen, fun h => .escape hh hl (hok h), fun h => ?_⟩
    obtain ⟨out₁, rest, hdec, hbad⟩ := hno h
    refine ⟨_, rest, .escape hh hl hdec, hbad.imp_right fun ⟨hne, hroom⟩ => ⟨hne, ?_⟩⟩
    rw [List.length_append, List.length_singleton] at hroom
    rw [List.length_cons]
    omega
  | case5 p out hroom hshort =>
    match p with
    | [] => exact absurd (.inl (by decide)) hroom
    | [_] => exact absurd (.inl (by simp)) hroom
    | h :: l :: p => exact (hshort h l p rfl).elim
  | case6 c p out hc hroom =>
    rw [urlDecodeLoop.eq_def]
    dsimp only
    rw [if_neg hc, if_pos hroom]
    exact hfail hle (.inr ⟨nofun, by omega⟩)
  | case7 c p out hc hroom ih =>
    rw [urlDecodeLoop.eq_def]
    dsimp only
    rw [if_neg hc, if_neg hroom, store_eq (by omega)]
    obtain ⟨ok, out', hloop, hlen, hok, hno⟩ :=
      ih (out ++ [c]) (by rw [List.length_append, List.length_singleton]; omega)
    rw [List.append_assoc] at hloop hlen
    refine ⟨ok, _, hloop, hlen, fun h => .char hc (hok h), fun h => ?_⟩
    obtain ⟨out₁, rest, hdec, hbad⟩ := hno h
    refine ⟨_, rest, .char hc hdec, hbad.imp_right fun ⟨hne, hroom⟩ => ⟨hne, ?_⟩⟩
    rw [List.length_append, List.length_singleton] at hroom
    rw [List.length_cons]
    omega

theorem Decodes.eq_nil (h : Decodes str [] rest) : rest = str := by
  cases h
  rfl

/-- There is one way to decode. -/
theorem Decodes.residual (h₁ : Decodes str out rest) (h₂ : Decodes str out' []) :
    ∃ out₁, out' = out ++ out₁ ∧ Decodes rest out₁ [] := by
  induction h₁ generalizing out' with
  | refl => exact ⟨out', rfl, h₂⟩
  | char hc _ ih =>
    cases h₂ with
    | char _ h₂ =>
      obtain ⟨out₁, rfl, hrest⟩ := ih h₂
      exact ⟨out₁, rfl, hrest⟩
    | escape => exact absurd rfl hc
  | escape _ _ _ ih =>
    cases h₂ with
    | char hc _ => exact absurd rfl hc
    | escape _ _ h₂ =>
      obtain ⟨out₁, rfl, hrest⟩ := ih h₂
      exact ⟨out₁, rfl, hrest⟩

theorem Decodes.unique (h₁ : Decodes str out []) (h₂ : Decodes str out' []) : out = out' := by
  obtain ⟨out₁, rfl, h⟩ := h₁.residual h₂
  have := h.length_le
  rw [List.length_nil, Nat.add_zero, Nat.le_zero, List.length_eq_zero_iff] at this
  rw [this, List.append_nil]

theorem not_badEscape (h : Decodes str out []) : ¬ BadEscape str := by
  rintro ⟨t, rfl, hdigits⟩
  cases h with
  | char hc _ => exact hc rfl
  | escape hh hl _ => exact hdigits ⟨_, _, _, rfl, hh, hl⟩

/-- Decoding comes to the end or to a `%` that is wrong. -/
theorem exists_decodes (str : Bytes) :
    (∃ out, Decodes str out []) ∨ ∃ out rest, Decodes str out rest ∧ BadEscape rest := by
  -- with as much room as there are bytes, the loop stops for no other reason
  obtain ⟨ok, out, -, -, hok, hno⟩ := @urlDecodeLoop_spec str.length str [] (Nat.zero_le _)
  cases ok with
  | true => exact .inl ⟨out, hok rfl⟩
  | false =>
    obtain ⟨out₁, rest, hdec, hbad | ⟨hne, hroom⟩⟩ := hno rfl
    · exact .inr ⟨out₁, rest, hdec, hbad⟩
    · have hlen := hdec.length_le
      have := List.length_pos_iff.mpr hne
      rw [List.length_nil] at hroom
      omega

/-- What is encoded decodes to what it was. -/
theorem decodes_escape (str : Bytes) : Decodes (str.flatMap escapeChar) str [] := by
  induction str with
  | nil => exact .refl
  | cons c str ih =>
    rw [List.flatMap_cons, escapeChar]
    split
    next hc =>
      refine .char ?_ ih
      rintro rfl
      exact absurd hc (by decide)
    next hc =>
      obtain ⟨-, -, hh, hl, hbyte⟩ := letters_spec c
      have hescape := Decodes.escape hh hl ih
      rw [hbyte] at hescape
      exact hescape

/-! ## The calls -/

theorem returned_eq {ok : Bool} (hlt : out.length < 2 ^ 31) :
    returned (ok, out) = (if ok then (out.length : Int) else -1, out) := by
  have hcount : Int.bmod out.length (2 ^ 32) = out.length := by
    rw [Int.bmod_def]
    omega
  rw [returned, hcount]

theorem urlDecode_spec (str : Bytes) (outSize : Nat) :
    ∃ count out, urlDecode str outSize = some (count, out) ∧ out.length ≤ outSize ∧
      (out.length < 2 ^ 31 →
        (count = -1 ↔ (∃ out₁ rest, Decodes str out₁ rest ∧ BadEscape rest) ∨
          ∃ out₁, Decodes str out₁ [] ∧ outSize < out₁.length) ∧
        (count ≠ -1 → count = out.length ∧ Decodes str out [])) := by
  obtain ⟨ok, out, hloop, hlen, hok, hno⟩ := @urlDecodeLoop_spec outSize str [] (Nat.zero_le _)
  rw [List.nil_append] at hloop hlen
  refine ⟨(returned (ok, out)).1, out, by rw [urlDecode, hloop]; rfl, hlen, fun hlt => ?_⟩
  rw [returned_eq hlt]
  cases ok with
  | true =>
    have hdec := hok rfl
    refine ⟨⟨fun h => ?_, ?_⟩, fun _ => ⟨rfl, hdec⟩⟩
    · have : (out.length : Int) = -1 := h
      omega
    · rintro (⟨out₁, rest, hreach, hbad⟩ | ⟨out₁, hend, hroom⟩)
      · obtain ⟨out₂, -, hrest⟩ := hreach.residual hdec
        exact absurd hbad (not_badEscape hrest)
      · rw [hend.unique hdec] at hroom
        omega
  | false =>
    refine ⟨⟨fun _ => ?_, fun _ => rfl⟩, fun h => absurd rfl h⟩
    obtain ⟨out₁, rest, hdec, hbad | ⟨hne, hroom⟩⟩ := hno rfl
    · exact .inl ⟨out₁, rest, hdec, hbad⟩
    · rw [List.length_nil, Nat.zero_add] at hroom
      obtain ⟨out₂, hend⟩ | ⟨out₂, rest', hreach, hbad⟩ := exists_decodes rest
      · refine .inr ⟨out₁ ++ out₂, hdec.trans hend, ?_⟩
        have hpos : out₂ ≠ [] := by
          rintro rfl
          exact hne hend.eq_nil.symm
        have := List.length_pos_iff.mpr hpos
        rw [List.length_append]
        omega
      · exact .inl ⟨out₁ ++ out₂, rest', hdec.trans hreach, hbad⟩

theorem urlDecode_escape {outSize : Nat} (str : Bytes) (hlt : str.length < 2 ^ 31)
    (hroom : str.length ≤ outSize) :
    urlDecode (str.flatMap escapeChar) outSize = some ((str.length : Int), str) := by
  obtain ⟨ok, out, hloop, -, hok, hno⟩ :=
    @urlDecodeLoop_spec outSize (str.flatMap escapeChar) [] (Nat.zero_le _)
  have hend := decodes_escape str
  cases ok with
  | true =>
    rw [List.nil_append, (hok rfl).unique hend] at hloop
    rw [urlDecode, hloop, Option.map_some, returned_eq hlt]
    rfl
  | false =>
    obtain ⟨out₁, rest, hdec, hbad⟩ := hno rfl
    obtain ⟨out₂, heq, hrest⟩ := hdec.residual hend
    obtain hbad | ⟨hne, hfull⟩ := hbad
    · exact absurd hbad (not_badEscape hrest)
    · have hlen := congrArg List.length heq
      rw [List.length_append] at hlen
      rw [List.length_nil] at hfull
      have hnil : out₂ = [] := List.length_eq_zero_iff.mp (by omega)
      rw [hnil] at hrest
      exact absurd hrest.eq_nil.symm hne

theorem urlEncode_spec (str : Bytes) (outSize : Nat) :
    ∃ count out, urlEncode str outSize = some (count, out) ∧ out.length ≤ outSize ∧ Escaped out ∧
      (out.length < 2 ^ 31 → (count ≠ -1 ↔ escapedSize str ≤ outSize) ∧
        (count ≠ -1 → count = escapedSize str ∧ out = str.flatMap escapeChar)) := by
  obtain ⟨ok, out, hloop, hlen, hescaped, hok, heq⟩ :=
    @urlEncodeLoop_spec outSize str [] (Nat.zero_le _)
  rw [List.nil_append] at hloop hlen
  rw [List.length_nil, Nat.zero_add] at hok
  refine ⟨(returned (ok, out)).1, out, by rw [urlEncode, hloop]; rfl, hlen, hescaped, fun hlt => ?_⟩
  rw [returned_eq hlt, ← hok]
  cases ok with
  | true =>
    have hout := heq rfl
    refine ⟨⟨fun _ => rfl, fun _ h => ?_⟩, fun _ => ⟨?_, hout⟩⟩
    · have : (out.length : Int) = -1 := h
      omega
    · rw [← length_escape, ← hout]
      rfl
  | false => exact ⟨⟨fun h => absurd rfl h, nofun⟩, fun h => absurd rfl h⟩

theorem urlEncode_escape {outSize : Nat} (str : Bytes) (hlt : escapedSize str < 2 ^ 31)
    (hroom : escapedSize str ≤ outSize) :
    urlEncode str outSize = some ((escapedSize str : Int), str.flatMap escapeChar) := by
  obtain ⟨ok, out, hloop, -, -, hok, heq⟩ := @urlEncodeLoop_spec outSize str [] (Nat.zero_le _)
  rw [List.length_nil, Nat.zero_add] at hok
  obtain rfl := hok.mpr hroom
  rw [List.nil_append, heq rfl] at hloop
  rw [urlEncode, hloop, Option.map_some, returned_eq (by rwa [length_escape]), length_escape]
  rfl

/-- The overloads that return strings. -/
theorem urlEncodeStr_spec (hlt : escapedSize str < 2 ^ 31) :
    urlEncodeStr str = some (str.flatMap escapeChar) ∧
      urlDecodeStr (str.flatMap escapeChar) = some str := by
  obtain ⟨hle, hle'⟩ := length_le_escapedSize str
  have hlen := length_escape str
  rw [urlEncodeStr, urlDecodeStr]
  by_cases hzero : str.length = 0
  · rw [List.length_eq_zero_iff.mp hzero]
    exact ⟨rfl, rfl⟩
  · rw [if_neg hzero, if_neg (by omega), urlDecode_escape str (by omega) (by omega),
      urlEncode_escape str hlt hle', Option.map_some, Option.map_some, toStr, toStr,
      if_neg (by omega), if_neg (by omega), Int.toNat_natCast, Int.toNat_natCast, List.take_length,
      ← hlen, List.take_length]
    exact ⟨rfl, rfl⟩

/-- Encoding and decoding, for every string and every buffer. Nothing is read or stored
outside the arrays; what is written is shorter than an `int` can count where a count is
returned. -/
theorem urlEncode_urlDecode (x s : Bytes) (outSize : Nat) :
    (∃ count out, urlEncode x outSize = some (count, out) ∧ out.length ≤ outSize ∧ Escaped out ∧
      (out.length < 2 ^ 31 → (count ≠ -1 ↔ escapedSize x ≤ outSize) ∧
        (count ≠ -1 → count = out.length ∧
          ∀ size, x.length ≤ size → urlDecode out size = some ((x.length : Int), x)))) ∧
      (escapedSize x < 2 ^ 31 →
        ∃ out, urlEncodeStr x = some out ∧ urlDecodeStr out = some x ∧ Escaped out) ∧
      ∃ count out, urlDecode s outSize = some (count, out) ∧ out.length ≤ outSize ∧
        (out.length < 2 ^ 31 →
          (count = -1 ↔ (∃ out₁ rest, Decodes s out₁ rest ∧ BadEscape rest) ∨
            ∃ out₁, Decodes s out₁ [] ∧ outSize < out₁.length) ∧
          (count ≠ -1 → count = out.length ∧ Decodes s out [])) := by
  refine ⟨?_, fun hlt => ?_, urlDecode_spec s outSize⟩
  · obtain ⟨count, out, hcall, hlen, hescaped, hspec⟩ := urlEncode_spec x outSize
    refine ⟨count, out, hcall, hlen, hescaped, fun hlt => ⟨(hspec hlt).1, fun hcount => ?_⟩⟩
    obtain ⟨hcount, rfl⟩ := (hspec hlt).2 hcount
    have hle := (length_le_escapedSize x).1
    rw [length_escape] at hlt ⊢
    exact ⟨hcount, fun size hroom => urlDecode_escape x (by omega) hroom⟩
  · obtain ⟨hencode, hdecode⟩ := urlEncodeStr_spec hlt
    obtain ⟨ok, out, -, -, hescaped, hok, heq⟩ :=
      urlEncodeLoop_spec x [] (Nat.zero_le (escapedSize x))
    rw [heq (hok.mpr (by simp))] at hescaped
    exact ⟨_, hencode, hdecode, hescaped⟩

end Codec

end Brickred
