import Brickred.Text.StringUtil

/-!
# Base64 (`codec/base64.cc`)
-/

namespace Brickred

namespace Codec

/-- `s_encode_table` -/
def encodeTable : Bytes := bytes "ABCDEFGHIJKLMNOPQRSTUVWXYZabcdefghijklmnopqrstuvwxyz0123456789+/"

def encodeChar (i : UInt8) : UInt8 := encodeTable.getD i.toNat 0

/-- The loop of `base64Encode` into an output of a given size: the characters
written, or `none` when they do not fit. -/
def base64EncodeTo (outSize : Nat) : Bytes → Option Bytes
  | [] => some []
  | [b₀] =>
    if outSize < 4 then none
    else some [encodeChar (b₀ >>> 2), encodeChar ((b₀ &&& 0x03) <<< 4), 61, 61]
  | [b₀, b₁] =>
    if outSize < 4 then none
    else
      some [encodeChar (b₀ >>> 2), encodeChar (((b₀ &&& 0x03) <<< 4) ||| ((b₁ &&& 0xf0) >>> 4)),
        encodeChar ((b₁ &&& 0x0f) <<< 2), 61]
  | b₀ :: b₁ :: b₂ :: rest =>
    if outSize < 4 then none
    else
      (base64EncodeTo (outSize - 4) rest).map fun out =>
        encodeChar (b₀ >>> 2) :: encodeChar (((b₀ &&& 0x03) <<< 4) ||| ((b₁ &&& 0xf0) >>> 4)) ::
          encodeChar (((b₁ &&& 0x0f) <<< 2) ||| ((b₂ &&& 0xc0) >>> 6)) ::
          encodeChar (b₂ &&& 0x3f) :: out

/-- `base64Encode` to a string. The number of characters is an `int`. -/
def base64Encode (buffer : Bytes) : Bytes :=
  if buffer.length = 0 then []
  else
    match base64EncodeTo ((buffer.length + 2) / 3 * 4) buffer with
    | none => []
    | some output =>
      let count := Int.bmod output.length (2 ^ 32)
      if count ≤ 0 then [] else output.take count.toNat

/-! ## What is written -/

theorem encodeChar_mem {i : UInt8} (h : i.toNat < 64) : encodeChar i ∈ encodeTable := by
  have hlength : encodeTable.length = 64 := by decide
  unfold encodeChar
  rw [List.getD_eq_getElem?_getD, List.getElem?_eq_getElem (by omega), Option.getD_some]
  exact List.getElem_mem _

/-- The six bits of each character. -/
theorem sextet_lt (b₀ b₁ : UInt8) : (b₀ >>> 2).toNat < 64 ∧ ((b₀ &&& 0x03) <<< 4).toNat < 64 ∧
    ((b₀ &&& 0x0f) <<< 2).toNat < 64 ∧ (b₀ &&& 0x3f).toNat < 64 ∧
    (((b₀ &&& 0x03) <<< 4) ||| ((b₁ &&& 0xf0) >>> 4)).toNat < 64 ∧
    (((b₀ &&& 0x0f) <<< 2) ||| ((b₁ &&& 0xc0) >>> 6)).toNat < 64 := by
  have hb₀ : b₀.toNat < 256 := b₀.toNat_lt
  have hb₁ : b₁.toNat < 256 := b₁.toNat_lt
  have h3 : b₀.toNat &&& 3 ≤ 3 := Nat.and_le_right
  have hf : b₀.toNat &&& 15 ≤ 15 := Nat.and_le_right
  have h3f : b₀.toNat &&& 63 ≤ 63 := Nat.and_le_right
  have hf0 : b₁.toNat &&& 240 ≤ 240 := Nat.and_le_right
  have hc0 : b₁.toNat &&& 192 ≤ 192 := Nat.and_le_right
  have h64 : (64 : Nat) = 2 ^ 6 := rfl
  simp only [UInt8.toNat_shiftRight, UInt8.toNat_shiftLeft, UInt8.toNat_and, UInt8.toNat_or,
    UInt8.reduceToNat, Nat.shiftRight_eq_div_pow, Nat.shiftLeft_eq, Nat.reduceMod, Nat.reducePow]
  refine ⟨by omega, by omega, by omega, by omega, ?_, ?_⟩
  · rw [h64]
    exact Nat.or_lt_two_pow (by omega) (by omega)
  · rw [h64]
    exact Nat.or_lt_two_pow (by omega) (by omega)

/-- There is room for the characters, which are those of the table and the padding. -/
theorem base64EncodeTo_spec {outSize : Nat} {buffer : Bytes}
    (h : (buffer.length + 2) / 3 * 4 ≤ outSize) :
    ∃ out, base64EncodeTo outSize buffer = some out ∧
      out.length = (buffer.length + 2) / 3 * 4 ∧ ∀ c ∈ out, c ∈ encodeTable ∨ c = 61 := by
  have hchar : ∀ {i : UInt8}, i.toNat < 64 → encodeChar i ∈ encodeTable ∨ encodeChar i = 61 :=
    fun hi => .inl (encodeChar_mem hi)
  induction outSize, buffer using base64EncodeTo.induct with
  | case1 outSize => exact ⟨[], by rw [base64EncodeTo], rfl, nofun⟩
  | case2 outSize b₀ hroom =>
    simp only [List.length_singleton] at h
    omega
  | case3 outSize b₀ hroom =>
    obtain ⟨h₁, h₂, -⟩ := sextet_lt b₀ 0
    refine ⟨_, by rw [base64EncodeTo, if_neg hroom], by simp, ?_⟩
    simp only [List.forall_mem_cons]
    exact ⟨hchar h₁, hchar h₂, .inr trivial, .inr trivial, nofun⟩
  | case4 outSize b₀ b₁ hroom =>
    simp only [List.length_cons, List.length_nil] at h
    omega
  | case5 outSize b₀ b₁ hroom =>
    obtain ⟨h₁, -, -, -, h₂, -⟩ := sextet_lt b₀ b₁
    obtain ⟨-, -, h₃, -⟩ := sextet_lt b₁ 0
    refine ⟨_, by rw [base64EncodeTo, if_neg hroom], by simp, ?_⟩
    simp only [List.forall_mem_cons]
    exact ⟨hchar h₁, hchar h₂, hchar h₃, .inr trivial, nofun⟩
  | case6 outSize b₀ b₁ b₂ rest hroom =>
    simp only [List.length_cons] at h
    omega
  | case7 outSize b₀ b₁ b₂ rest hroom ih =>
    simp only [List.length_cons] at h ⊢
    obtain ⟨out, he, hlength, hmem⟩ := ih (by omega)
    obtain ⟨h₁, -, -, -, h₂, -⟩ := sextet_lt b₀ b₁
    obtain ⟨-, -, -, -, -, h₃⟩ := sextet_lt b₁ b₂
    obtain ⟨-, -, -, h₄, -⟩ := sextet_lt b₂ 0
    refine ⟨_, by rw [base64EncodeTo, if_neg hroom, he, Option.map_some], ?_, ?_⟩
    · simp only [List.length_cons, hlength]
      omega
    · simp only [List.forall_mem_cons]
      exact ⟨hchar h₁, hchar h₂, hchar h₃, hchar h₄, hmem⟩

theorem base64Encode_chars (buffer : Bytes) : ∀ c ∈ base64Encode buffer, c ∈ encodeTable ∨ c = 61 := by
  obtain ⟨out, he, -, hmem⟩ := @base64EncodeTo_spec _ buffer (le_refl _)
  unfold base64Encode
  split
  · nofun
  · rw [he]
    dsimp only
    split
    · nofun
    · exact fun c hc => hmem c (List.mem_of_mem_take hc)

/-- The characters are no more than an `int` can count. -/
theorem length_base64Encode {buffer : Bytes} (hpos : 0 < buffer.length)
    (hlt : (buffer.length + 2) / 3 * 4 < 2 ^ 31) :
    (base64Encode buffer).length = (buffer.length + 2) / 3 * 4 := by
  obtain ⟨out, he, hlength, -⟩ := @base64EncodeTo_spec _ buffer (le_refl _)
  have hcount : Int.bmod out.length (2 ^ 32) = out.length := by
    rw [Int.bmod_def]
    omega
  unfold base64Encode
  rw [if_neg (by omega), he]
  dsimp only
  rw [hcount, if_neg (by omega), Int.toNat_natCast, List.take_length, hlength]

end Codec

end Brickred
