import Brickred.Protocol.WebSocketParse

/-!
# Frames on the wire

A `Frame` is any frame, well-formed or not: it says how it is cut into bytes, and
`Legal` which frames `readFrame` takes.
-/

namespace Brickred

namespace WebSocketProtocol

/-- The three ways to give the length of a payload. -/
inductive LengthForm where
  | short
  | two
  | eight
deriving DecidableEq, Repr

namespace LengthForm

/-- The lengths of this form are below. -/
def bound : LengthForm → Nat
  | .short => 126
  | .two => 2 ^ 16
  | .eight => 2 ^ 64

/-- The seven bits of the second byte. -/
def code (n : Nat) : LengthForm → Nat
  | .short => n
  | .two => 126
  | .eight => 127

/-- The bytes behind the second one. -/
def extended (n : Nat) : LengthForm → Bytes
  | .short => []
  | .two => DynamicBuffer.encodeInt 2 false n
  | .eight => DynamicBuffer.encodeInt 8 false n

/-- The form is the shortest, and the top bit is not set. -/
def Shortest (n : Nat) : LengthForm → Prop
  | .short => True
  | .two => 126 ≤ n
  | .eight => 2 ^ 16 ≤ n ∧ n < 2 ^ 63

instance (n : Nat) (form : LengthForm) : Decidable (form.Shortest n) :=
  match form with
  | .short => inferInstanceAs (Decidable True)
  | .two => inferInstanceAs (Decidable (126 ≤ n))
  | .eight => inferInstanceAs (Decidable (2 ^ 16 ≤ n ∧ n < 2 ^ 63))

/-- The shortest form of a length. -/
def of (n : Nat) : LengthForm := if n < 126 then .short else if n ≤ 65535 then .two else .eight

end LengthForm

/-- A frame as it is cut into bytes; `payload` is the payload before it is masked. -/
structure Frame where
  fin : Bool
  rsv : Fin 8
  opcode : Fin 16
  form : LengthForm
  key : Option Bytes
  payload : Bytes
  key_length : ∀ k ∈ key, k.length = 4
  payload_lt : payload.length < form.bound

namespace Frame

variable (f : Frame)

/-- The first byte. -/
def first : UInt8 :=
  UInt8.ofNat ((if f.fin then 128 else 0) + f.rsv.val * 16 + f.opcode.val)

/-- The second byte. -/
def second : UInt8 :=
  UInt8.ofNat ((if f.key.isSome then 128 else 0) + f.form.code f.payload.length)

/-- The payload as it is sent. -/
def body : Bytes := maskWith f.key f.payload

/-- The bytes of a frame. -/
def encode : Bytes :=
  f.first :: f.second :: (f.form.extended f.payload.length ++ f.key.getD [] ++ f.body)

/-- What `readFrame` checks while it looks at a frame, in an object that has `size`
bytes of a message. -/
structure Legal (isClient : Bool) (limit size : Nat) : Prop where
  rsv : f.rsv = 0
  control : 8 ≤ f.opcode.val → f.fin = true ∧ f.payload.length ≤ 125
  shortest : f.form.Shortest f.payload.length
  fits : f.opcode.val < 8 → size + f.payload.length ≤ limit
  masked : f.key.isSome = !isClient

end Frame

theorem mask_mask (key data : Bytes) : mask key (mask key data) = data := by
  refine List.ext_getElem ?_ fun i h₁ h₂ => ?_
  · simp only [mask, List.length_mapIdx]
  · simp only [mask, List.getElem_mapIdx]
    rw [UInt8.xor_assoc, UInt8.xor_self, UInt8.xor_zero]

theorem maskWith_maskWith (key : Option Bytes) (data : Bytes) :
    maskWith key (maskWith key data) = data := by
  cases key with
  | none => rfl
  | some key => exact mask_mask key data

variable {f : Frame} {p : WebSocketProtocol}

@[simp] theorem Frame.length_body : f.body.length = f.payload.length :=
  length_maskWith _ _

/-- The bits of the first byte. -/
theorem Frame.first_bits : (f.first &&& 0x70 = 0 ↔ f.rsv = 0) ∧ (f.first &&& 0x80 ≠ 0 ↔ f.fin = true) ∧
    (f.first &&& 0x0f).toNat = f.opcode.val := by
  have hbits : ∀ (fin : Bool) (rsv : Fin 8) (opcode : Fin 16),
      let b := UInt8.ofNat ((if fin then 128 else 0) + rsv.val * 16 + opcode.val)
      (b &&& 0x70 = 0 ↔ rsv = 0) ∧ (b &&& 0x80 ≠ 0 ↔ fin = true) ∧
        (b &&& 0x0f).toNat = opcode.val := by
    decide
  exact hbits f.fin f.rsv f.opcode

theorem LengthForm.code_lt {n : Nat} {form : LengthForm} (h : n < form.bound) :
    form.code n < 128 := by
  cases form with
  | short => exact Nat.lt_of_lt_of_le h (by decide)
  | two => exact (by decide : 126 < 128)
  | eight => exact (by decide : 127 < 128)

/-- The bits of the second byte. -/
theorem Frame.second_bits : (f.second &&& 0x80 ≠ 0 ↔ f.key.isSome = true) ∧
    (f.second &&& 0x7f).toNat = f.form.code f.payload.length := by
  have hbits : ∀ (masked : Bool) (code : Fin 128),
      let b := UInt8.ofNat ((if masked then 128 else 0) + code.val)
      (b &&& 0x80 ≠ 0 ↔ masked = true) ∧ (b &&& 0x7f).toNat = code.val := by
    decide
  exact hbits f.key.isSome ⟨_, LengthForm.code_lt f.payload_lt⟩

/-! ## Reading a frame -/

/-- How many bytes give the length, besides the second one. -/
def LengthForm.width : LengthForm → Nat
  | .short => 0
  | .two => 2
  | .eight => 8

@[simp] theorem LengthForm.length_extended (n : Nat) (form : LengthForm) :
    (form.extended n).length = form.width := by
  cases form with
  | short => rfl
  | two => exact DynamicBuffer.length_encodeInt false n
  | eight => exact DynamicBuffer.length_encodeInt false n

theorem readLength_encode (b₀ b₁ : UInt8) {n : Nat} {form : LengthForm} (h : n < form.bound)
    (tail : Bytes) : readLength (b₀ :: b₁ :: (form.extended n ++ tail)) (form.code n) =
      if form.Shortest n then some (.ready (n, 2 + form.width, tail.length))
      else some .failed := by
  have hlen : (b₀ :: b₁ :: (form.extended n ++ tail)).length - 2 = form.width + tail.length := by
    simp only [List.length_cons, List.length_append, LengthForm.length_extended]
    omega
  -- an integer behind the first two bytes
  have hpeek : ∀ width, 2 + width < 2 ^ 64 → n < 256 ^ width →
      Queue.peekInt (b₀ :: b₁ :: (DynamicBuffer.encodeInt width false n ++ tail)) width 2 false =
        some (some n) := by
    intro width hwidth hn
    have hle : ¬ (b₀ :: b₁ :: (DynamicBuffer.encodeInt width false n ++ tail)).length < 2 + width := by
      simp only [List.length_cons, List.length_append, DynamicBuffer.length_encodeInt]
      omega
    rw [peekInt_eq hwidth, if_neg hle]
    show some (some (DynamicBuffer.decodeInt false
      ((DynamicBuffer.encodeInt width false n ++ tail).take width))) = _
    rw [List.take_left' (DynamicBuffer.length_encodeInt _ _), DynamicBuffer.decodeInt_encodeInt,
      Nat.mod_eq_of_lt hn]
  unfold readLength
  rw [checkedSub_eq (by simp), hlen]
  simp only [Option.bind_eq_bind, Option.bind_some]
  cases form with
  | short =>
    have hn : n < 126 := h
    have hcode : LengthForm.short.code n = n := rfl
    rw [hcode, if_neg (by omega), if_neg (by omega),
      if_pos (show LengthForm.short.Shortest n from trivial), LengthForm.width, Nat.zero_add]
  | two =>
    have hsub : checkedSub (2 + tail.length) 2 = some tail.length := by
      rw [checkedSub_eq (by omega), Nat.add_sub_cancel_left]
    have hcode : LengthForm.two.code n = 126 := rfl
    rw [hcode, if_pos rfl, LengthForm.extended, hpeek 2 (by decide) h]
    simp only [Option.bind_some, LengthForm.width, hsub]
    have hshortest : LengthForm.two.Shortest n ↔ 126 ≤ n := Iff.rfl
    by_cases hshort : n < 126
    · rw [if_pos hshort, if_neg (by rw [hshortest]; omega)]
    · rw [if_neg hshort, if_pos (by rw [hshortest]; omega)]
  | eight =>
    have hsub : checkedSub (8 + tail.length) 8 = some tail.length := by
      rw [checkedSub_eq (by omega), Nat.add_sub_cancel_left]
    have hcode : LengthForm.eight.code n = 127 := rfl
    have htop : n >>> 63 ≠ 0 ↔ ¬ n < 2 ^ 63 := by
      rw [Nat.shiftRight_eq_div_pow, ne_eq, Nat.div_eq_zero_iff]
      omega
    rw [hcode, if_neg (by decide), if_pos rfl, LengthForm.extended, hpeek 8 (by decide) h]
    simp only [Option.bind_some, LengthForm.width, hsub]
    have hshortest : LengthForm.eight.Shortest n ↔ 2 ^ 16 ≤ n ∧ n < 2 ^ 63 := Iff.rfl
    by_cases hshort : n ≤ 0xffff
    · rw [if_pos hshort, if_neg (by rw [hshortest]; omega)]
    · rw [if_neg hshort]
      by_cases hbit : n < 2 ^ 63
      · rw [if_neg (by rw [htop]; exact not_not.mpr hbit),
          if_pos (by rw [hshortest]; omega)]
      · rw [if_pos (htop.mpr hbit), if_neg (by rw [hshortest]; omega)]

/-- A length is in the second byte itself exactly if it is short. -/
theorem LengthForm.code_lt_iff {n : Nat} {form : LengthForm} (h : n < form.bound) :
    form.code n < 126 ↔ form = .short := by
  cases form with
  | short => exact ⟨fun _ => rfl, fun _ => h⟩
  | two => exact ⟨fun hlt => absurd hlt (by decide : ¬ 126 < 126), nofun⟩
  | eight => exact ⟨fun hlt => absurd hlt (by decide : ¬ 127 < 126), nofun⟩

/-- What is read of the mask key. -/
theorem readMaskKey_encode (p : WebSocketProtocol) (f : Frame) (b₀ b₁ : UInt8) (rest : Bytes) :
    p.readMaskKey
      (b₀ :: b₁ :: (f.form.extended f.payload.length ++ (f.key.getD [] ++ (f.body ++ rest))))
      f.key.isSome (2 + f.form.width) (f.key.getD [] ++ (f.body ++ rest)).length =
      if f.key.isSome = !p.isClient then
        some (.ready (f.key, 2 + f.form.width + (f.key.getD []).length, (f.body ++ rest).length))
      else some .failed := by
  have hdrop : (b₀ :: b₁ :: (f.form.extended f.payload.length ++
      (f.key.getD [] ++ (f.body ++ rest)))).drop (2 + f.form.width) =
        f.key.getD [] ++ (f.body ++ rest) := by
    rw [Nat.add_comm]
    show (f.form.extended f.payload.length ++ _).drop f.form.width = _
    exact List.drop_left' (LengthForm.length_extended _ _)
  have hlen : (b₀ :: b₁ :: (f.form.extended f.payload.length ++
      (f.key.getD [] ++ (f.body ++ rest)))).length =
        2 + f.form.width + (f.key.getD [] ++ (f.body ++ rest)).length := by
    simp only [List.length_cons, List.length_append, LengthForm.length_extended]
    omega
  unfold readMaskKey
  cases hkey : f.key with
  | none =>
    simp only [Option.isSome_none, Bool.false_eq_true, if_false, Option.getD_none, List.nil_append,
      List.length_nil, Nat.add_zero]
    cases p.isClient <;> simp
  | some key =>
    have h4 := f.key_length key hkey
    rw [hkey, Option.getD_some] at hdrop hlen
    rw [Option.isSome_some, if_pos rfl, Option.getD_some]
    cases p.isClient with
    | true => rfl
    | false =>
      have hmore : ¬ (key ++ (f.body ++ rest)).length < 4 := by
        rw [List.length_append]
        omega
      have hslice : slice (b₀ :: b₁ :: (f.form.extended f.payload.length ++
          (key ++ (f.body ++ rest)))) (2 + f.form.width) 4 = some key := by
        rw [slice, if_pos (by omega), hdrop, List.take_left' h4]
      have hsub : (key ++ (f.body ++ rest)).length - 4 = (f.body ++ rest).length := by
        rw [List.length_append, h4, Nat.add_sub_cancel_left]
      rw [if_neg Bool.false_ne_true, if_neg hmore, hslice, checkedSub_eq (by omega), hsub, h4]
      rfl

/-- What is read of the payload. -/
theorem readPayload_encode (f : Frame) (b₀ b₁ : UInt8) (rest : Bytes) :
    readPayload
      (b₀ :: b₁ :: (f.form.extended f.payload.length ++ (f.key.getD [] ++ (f.body ++ rest))))
      f.key f.payload.length (2 + f.form.width + (f.key.getD []).length) (f.body ++ rest).length =
      some (.ready (f.payload, f.encode.length)) := by
  have hencode : f.encode.length =
      2 + f.form.width + (f.key.getD []).length + f.payload.length := by
    simp only [Frame.encode, List.length_cons, List.length_append, LengthForm.length_extended,
      Frame.length_body]
    omega
  unfold readPayload
  split
  · rename_i hpos
    have hmore : ¬ (f.body ++ rest).length < f.payload.length := by
      rw [List.length_append, Frame.length_body]
      omega
    have hslice : slice (b₀ :: b₁ :: (f.form.extended f.payload.length ++
        (f.key.getD [] ++ (f.body ++ rest)))) (2 + f.form.width + (f.key.getD []).length)
          f.payload.length = some f.body := by
      have hdrop : (b₀ :: b₁ :: (f.form.extended f.payload.length ++
          (f.key.getD [] ++ (f.body ++ rest)))).drop
            (2 + f.form.width + (f.key.getD []).length) = f.body ++ rest := by
        rw [Nat.add_assoc, Nat.add_comm 2]
        show (f.form.extended f.payload.length ++ _).drop (f.form.width + _) = _
        rw [← List.append_assoc]
        exact List.drop_left' (by rw [List.length_append, LengthForm.length_extended])
      have hle : 2 + f.form.width + (f.key.getD []).length + f.payload.length ≤
          (b₀ :: b₁ :: (f.form.extended f.payload.length ++
            (f.key.getD [] ++ (f.body ++ rest)))).length := by
        simp only [List.length_cons, List.length_append, LengthForm.length_extended,
          Frame.length_body]
        omega
      rw [slice, if_pos hle, hdrop, List.take_left' f.length_body]
    have hpayload : maskWith f.key f.body = f.payload := maskWith_maskWith _ _
    rw [if_neg hmore, hslice, checkedSub_eq (Nat.not_lt.mp hmore), hencode]
    simp only [Option.bind_eq_bind, Option.bind_some, hpayload]
  · rename_i hpos
    have hnil : f.payload = [] := List.length_eq_zero_iff.mp (by omega)
    rw [hencode, hnil]
    rfl

/-- `readFrame` reads the whole of a frame, or finds that it is not legal. -/
theorem parseFrame_encode (p : WebSocketProtocol) (f : Frame) (rest : Bytes) :
    (f.Legal p.isClient p.messageSizeMax p.message.length →
      p.parseFrame (f.encode ++ rest) =
        some (.ready ⟨f.fin, f.opcode.val, f.payload, f.encode.length⟩)) ∧
    (¬ f.Legal p.isClient p.messageSizeMax p.message.length →
      p.parseFrame (f.encode ++ rest) = some .failed) := by
  obtain ⟨hrsv, hfin, hopcode⟩ := f.first_bits
  obtain ⟨hmasked, hcode⟩ := f.second_bits
  have hcodeShort := LengthForm.code_lt_iff f.payload_lt
  have happ : f.encode ++ rest = f.first :: f.second ::
      (f.form.extended f.payload.length ++ (f.key.getD [] ++ (f.body ++ rest))) := by
    simp only [Frame.encode, List.cons_append, List.append_assoc]
  have hfinBit : decide (f.first &&& 0x80 ≠ 0) = f.fin := by
    rw [decide_eq_decide.mpr hfin, Bool.decide_coe]
  have hmaskBit : decide (f.second &&& 0x80 ≠ 0) = f.key.isSome := by
    rw [decide_eq_decide.mpr hmasked, Bool.decide_coe]
  rw [happ]
  unfold parseFrame
  rw [if_neg (by simp), List.getElem?_cons_zero, List.getElem?_cons_succ, List.getElem?_cons_zero]
  simp only [Option.bind_eq_bind, Option.bind_some, hopcode, hcode, hfinBit, hmaskBit]
  rw [readLength_encode _ _ f.payload_lt]
  by_cases h₁ : f.rsv = 0
  swap
  · rw [if_pos (by rwa [ne_eq, hrsv])]
    exact ⟨fun h => absurd h.rsv h₁, fun _ => rfl⟩
  rw [if_neg (by rw [ne_eq, hrsv]; exact not_not.mpr h₁)]
  by_cases h₂ : 8 ≤ f.opcode.val ∧ f.fin = false
  · rw [if_pos (by simpa using h₂)]
    exact ⟨fun h => absurd (h.control h₂.1).1 (by simp [h₂.2]), fun _ => rfl⟩
  rw [if_neg (by simpa using h₂)]
  by_cases h₃ : 8 ≤ f.opcode.val ∧ 126 ≤ f.form.code f.payload.length
  · rw [if_pos (by simpa using h₃)]
    refine ⟨fun h => ?_, fun _ => rfl⟩
    -- a control frame whose length is in its shortest form has it in the second byte
    have hle := (h.control h₃.1).2
    have hshortest := h.shortest
    have hne : f.form ≠ .short := fun he => absurd (hcodeShort.mpr he) (by omega)
    cases hform : f.form with
    | short => exact absurd hform hne
    | two =>
      rw [hform] at hshortest
      have : 126 ≤ f.payload.length := hshortest
      omega
    | eight =>
      rw [hform] at hshortest
      have : 2 ^ 16 ≤ f.payload.length := hshortest.1
      omega
  rw [if_neg (by simpa using h₃)]
  by_cases h₄ : f.form.Shortest f.payload.length
  swap
  · rw [if_neg h₄]
    exact ⟨fun h => absurd h.shortest h₄, fun _ => rfl⟩
  rw [if_pos h₄, Part.andThen]
  by_cases h₅ : f.opcode.val < 8 ∧ p.messageSizeMax < p.message.length + f.payload.length
  · rw [if_pos (by simpa using h₅)]
    exact ⟨fun h => absurd (h.fits h₅.1) (by omega), fun _ => rfl⟩
  rw [if_neg (by simpa using h₅), readMaskKey_encode]
  by_cases h₆ : f.key.isSome = !p.isClient
  swap
  · rw [if_neg h₆]
    exact ⟨fun h => absurd h.masked h₆, fun _ => rfl⟩
  rw [if_pos h₆, Part.andThen, readPayload_encode]
  refine ⟨fun _ => rfl, fun hillegal => absurd ⟨h₁, fun hc => ⟨?_, ?_⟩, h₄, fun hd => ?_, h₆⟩ hillegal⟩
  · by_contra hfin
    exact h₂ ⟨hc, by simpa using hfin⟩
  · have hshort : f.form = .short := hcodeShort.mp (by omega)
    have hlt := f.payload_lt
    rw [hshort] at hlt
    exact Nat.le_of_lt_succ hlt
  · omega

end WebSocketProtocol

end Brickred
