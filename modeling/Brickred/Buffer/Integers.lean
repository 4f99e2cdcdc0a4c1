import Mathlib.Data.List.Infix
import Mathlib.Data.Nat.Bitwise
import Brickred.Buffer.Growth
import Brickred.Buffer.Queue

/-!
# Integers in a `DynamicBuffer` (`dynamic_buffer.cc`)

`encodeInt` and `decodeInt` stand for the stores and loads of the four widths; these are
written out first, as the shifts of the source, and compared. Then an integer is
followed through whatever happens to the buffers after it was written.
-/

namespace Brickred

namespace DynamicBuffer

/-! ## The shifts -/

/-- The bytes `writeInt16` stores, from the lowest address on. -/
def storeInt16 (v : UInt16) (littleEndian : Bool) : List UInt8 :=
  if littleEndian then [v.toUInt8, (v >>> 8).toUInt8] else [(v >>> 8).toUInt8, v.toUInt8]

/-- The bytes `writeInt32` stores. -/
def storeInt32 (v : UInt32) (littleEndian : Bool) : List UInt8 :=
  if littleEndian then
    [v.toUInt8, (v >>> 8).toUInt8, (v >>> 16).toUInt8, (v >>> 24).toUInt8]
  else
    [(v >>> 24).toUInt8, (v >>> 16).toUInt8, (v >>> 8).toUInt8, v.toUInt8]

/-- The bytes `writeInt64` stores. -/
def storeInt64 (v : UInt64) (littleEndian : Bool) : List UInt8 :=
  if littleEndian then
    [v.toUInt8, (v >>> 8).toUInt8, (v >>> 16).toUInt8, (v >>> 24).toUInt8,
      (v >>> 32).toUInt8, (v >>> 40).toUInt8, (v >>> 48).toUInt8, (v >>> 56).toUInt8]
  else
    [(v >>> 56).toUInt8, (v >>> 48).toUInt8, (v >>> 40).toUInt8, (v >>> 32).toUInt8,
      (v >>> 24).toUInt8, (v >>> 16).toUInt8, (v >>> 8).toUInt8, v.toUInt8]

/-- What `peekInt16` makes of the bytes at `p`. -/
def loadInt16 (p₀ p₁ : UInt8) (littleEndian : Bool) : UInt16 :=
  if littleEndian then p₀.toUInt16 ||| p₁.toUInt16 <<< 8
  else p₁.toUInt16 ||| p₀.toUInt16 <<< 8

/-- What `peekInt32` makes of the bytes at `p`. -/
def loadInt32 (p₀ p₁ p₂ p₃ : UInt8) (littleEndian : Bool) : UInt32 :=
  if littleEndian then
    p₀.toUInt32 ||| p₁.toUInt32 <<< 8 ||| p₂.toUInt32 <<< 16 ||| p₃.toUInt32 <<< 24
  else
    p₃.toUInt32 ||| p₂.toUInt32 <<< 8 ||| p₁.toUInt32 <<< 16 ||| p₀.toUInt32 <<< 24

/-- What `peekInt64` makes of the bytes at `p`. -/
def loadInt64 (p₀ p₁ p₂ p₃ p₄ p₅ p₆ p₇ : UInt8) (littleEndian : Bool) : UInt64 :=
  if littleEndian then
    p₀.toUInt64 ||| p₁.toUInt64 <<< 8 ||| p₂.toUInt64 <<< 16 ||| p₃.toUInt64 <<< 24 |||
      p₄.toUInt64 <<< 32 ||| p₅.toUInt64 <<< 40 ||| p₆.toUInt64 <<< 48 ||| p₇.toUInt64 <<< 56
  else
    p₇.toUInt64 ||| p₆.toUInt64 <<< 8 ||| p₅.toUInt64 <<< 16 ||| p₄.toUInt64 <<< 24 |||
      p₃.toUInt64 <<< 32 ||| p₂.toUInt64 <<< 40 ||| p₁.toUInt64 <<< 48 ||| p₀.toUInt64 <<< 56

theorem toUInt8_shiftRight16 (v s : UInt16) {k : Nat} (hs : s.toNat % 16 = 8 * k) :
    (v >>> s).toUInt8 = UInt8.ofNat (v.toNat / 256 ^ k) := by
  apply UInt8.toNat_inj.mp
  rw [UInt16.toNat_toUInt8, UInt16.toNat_shiftRight, hs, Nat.shiftRight_eq_div_pow, Nat.pow_mul,
    UInt8.toNat_ofNat']

theorem toUInt8_shiftRight32 (v s : UInt32) {k : Nat} (hs : s.toNat % 32 = 8 * k) :
    (v >>> s).toUInt8 = UInt8.ofNat (v.toNat / 256 ^ k) := by
  apply UInt8.toNat_inj.mp
  rw [UInt32.toNat_toUInt8, UInt32.toNat_shiftRight, hs, Nat.shiftRight_eq_div_pow, Nat.pow_mul,
    UInt8.toNat_ofNat']

theorem toUInt8_shiftRight64 (v s : UInt64) {k : Nat} (hs : s.toNat % 64 = 8 * k) :
    (v >>> s).toUInt8 = UInt8.ofNat (v.toNat / 256 ^ k) := by
  apply UInt8.toNat_inj.mp
  rw [UInt64.toNat_toUInt8, UInt64.toNat_shiftRight, hs, Nat.shiftRight_eq_div_pow, Nat.pow_mul,
    UInt8.toNat_ofNat']

/-- The stores in one order are those in the other, backwards. -/
theorem encodeInt_false (width v : Nat) :
    encodeInt width false v = (encodeInt width true v).reverse := rfl

theorem decodeInt_false (bytes : List UInt8) :
    decodeInt false bytes = decodeInt true bytes.reverse := rfl

/-- What stores the bytes in one order, and backwards in the other. -/
theorem eq_encodeInt {width v : Nat} {store : Bool → List UInt8}
    (hlittle : store true = encodeInt width true v) (hbig : store false = (store true).reverse)
    (littleEndian : Bool) : store littleEndian = encodeInt width littleEndian v := by
  cases littleEndian with
  | true => exact hlittle
  | false => rw [hbig, hlittle, encodeInt_false]

theorem storeInt16_eq (v : UInt16) (littleEndian : Bool) :
    storeInt16 v littleEndian = encodeInt 2 littleEndian v.toNat := by
  have hlittle : storeInt16 v true = encodeInt 2 true v.toNat := by
    show [v.toUInt8, (v >>> 8).toUInt8] =
      [UInt8.ofNat (v.toNat / 256 ^ 0), UInt8.ofNat (v.toNat / 256 ^ 1)]
    rw [toUInt8_shiftRight16 (k := 1) v 8 rfl, Nat.pow_zero, Nat.div_one]
    rfl
  exact eq_encodeInt hlittle rfl littleEndian

theorem storeInt32_eq (v : UInt32) (littleEndian : Bool) :
    storeInt32 v littleEndian = encodeInt 4 littleEndian v.toNat := by
  have hlittle : storeInt32 v true = encodeInt 4 true v.toNat := by
    show [v.toUInt8, (v >>> 8).toUInt8, (v >>> 16).toUInt8, (v >>> 24).toUInt8] =
      [UInt8.ofNat (v.toNat / 256 ^ 0), UInt8.ofNat (v.toNat / 256 ^ 1),
        UInt8.ofNat (v.toNat / 256 ^ 2), UInt8.ofNat (v.toNat / 256 ^ 3)]
    rw [toUInt8_shiftRight32 (k := 1) v 8 rfl, toUInt8_shiftRight32 (k := 2) v 16 rfl,
      toUInt8_shiftRight32 (k := 3) v 24 rfl, Nat.pow_zero, Nat.div_one]
    rfl
  exact eq_encodeInt hlittle rfl littleEndian

theorem storeInt64_eq (v : UInt64) (littleEndian : Bool) :
    storeInt64 v littleEndian = encodeInt 8 littleEndian v.toNat := by
  have hlittle : storeInt64 v true = encodeInt 8 true v.toNat := by
    show [v.toUInt8, (v >>> 8).toUInt8, (v >>> 16).toUInt8, (v >>> 24).toUInt8,
        (v >>> 32).toUInt8, (v >>> 40).toUInt8, (v >>> 48).toUInt8, (v >>> 56).toUInt8] =
      [UInt8.ofNat (v.toNat / 256 ^ 0), UInt8.ofNat (v.toNat / 256 ^ 1),
        UInt8.ofNat (v.toNat / 256 ^ 2), UInt8.ofNat (v.toNat / 256 ^ 3),
        UInt8.ofNat (v.toNat / 256 ^ 4), UInt8.ofNat (v.toNat / 256 ^ 5),
        UInt8.ofNat (v.toNat / 256 ^ 6), UInt8.ofNat (v.toNat / 256 ^ 7)]
    rw [toUInt8_shiftRight64 (k := 1) v 8 rfl, toUInt8_shiftRight64 (k := 2) v 16 rfl,
      toUInt8_shiftRight64 (k := 3) v 24 rfl, toUInt8_shiftRight64 (k := 4) v 32 rfl,
      toUInt8_shiftRight64 (k := 5) v 40 rfl, toUInt8_shiftRight64 (k := 6) v 48 rfl,
      toUInt8_shiftRight64 (k := 7) v 56 rfl, Nat.pow_zero, Nat.div_one]
    rfl
  exact eq_encodeInt hlittle rfl littleEndian

/-- A byte put above the bits of a smaller number. -/
theorem or_byte {a k w : Nat} (p : UInt8) (ha : a < 2 ^ k) (hw : k + 8 ≤ w) :
    a ||| p.toNat <<< k % 2 ^ w = a + 2 ^ k * p.toNat ∧ a + 2 ^ k * p.toNat < 2 ^ (k + 8) := by
  have hp := p.toNat_lt
  have hlt : a + 2 ^ k * p.toNat < 2 ^ (k + 8) := by
    calc a + 2 ^ k * p.toNat < 2 ^ k * (p.toNat + 1) := by
          rw [Nat.mul_add]
          omega
      _ ≤ 2 ^ (k + 8) := by
          rw [Nat.pow_add]
          exact Nat.mul_le_mul_left _ hp
  have hsmall : p.toNat <<< k < 2 ^ w := by
    rw [Nat.shiftLeft_eq, Nat.mul_comm]
    exact (Nat.le_add_left _ _).trans_lt (hlt.trans_le (Nat.pow_le_pow_right (by decide) hw))
  refine ⟨?_, hlt⟩
  rw [Nat.mod_eq_of_lt hsmall, Nat.or_comm, ← Nat.shiftLeft_add_eq_or_of_lt ha, Nat.shiftLeft_eq,
    Nat.add_comm, Nat.mul_comm]

theorem loadInt16_eq (p₀ p₁ : UInt8) (littleEndian : Bool) :
    (loadInt16 p₀ p₁ littleEndian).toNat = decodeInt littleEndian [p₀, p₁] := by
  have hlittle : ∀ p₀ p₁, (loadInt16 p₀ p₁ true).toNat = decodeInt true [p₀, p₁] := by
    intro p₀ p₁
    obtain ⟨e₁, -⟩ := or_byte (k := 8) (w := 16) p₁ p₀.toNat_lt (by decide)
    show p₀.toNat ||| p₁.toNat <<< 8 % 2 ^ 16 = p₀.toNat + 256 * (p₁.toNat + 256 * 0)
    rw [e₁]
    omega
  cases littleEndian with
  | true => exact hlittle p₀ p₁
  | false => exact hlittle p₁ p₀

theorem loadInt32_eq (p₀ p₁ p₂ p₃ : UInt8) (littleEndian : Bool) :
    (loadInt32 p₀ p₁ p₂ p₃ littleEndian).toNat = decodeInt littleEndian [p₀, p₁, p₂, p₃] := by
  have hlittle : ∀ p₀ p₁ p₂ p₃,
      (loadInt32 p₀ p₁ p₂ p₃ true).toNat = decodeInt true [p₀, p₁, p₂, p₃] := by
    intro p₀ p₁ p₂ p₃
    obtain ⟨e₁, l₁⟩ := or_byte (k := 8) (w := 32) p₁ p₀.toNat_lt (by decide)
    obtain ⟨e₂, l₂⟩ := or_byte (k := 16) (w := 32) p₂ l₁ (by decide)
    obtain ⟨e₃, -⟩ := or_byte (k := 24) (w := 32) p₃ l₂ (by decide)
    show p₀.toNat ||| p₁.toNat <<< 8 % 2 ^ 32 ||| p₂.toNat <<< 16 % 2 ^ 32 |||
        p₃.toNat <<< 24 % 2 ^ 32 =
      p₀.toNat + 256 * (p₁.toNat + 256 * (p₂.toNat + 256 * (p₃.toNat + 256 * 0)))
    rw [e₁, e₂, e₃]
    omega
  cases littleEndian with
  | true => exact hlittle p₀ p₁ p₂ p₃
  | false => exact hlittle p₃ p₂ p₁ p₀

theorem loadInt64_eq (p₀ p₁ p₂ p₃ p₄ p₅ p₆ p₇ : UInt8) (littleEndian : Bool) :
    (loadInt64 p₀ p₁ p₂ p₃ p₄ p₅ p₆ p₇ littleEndian).toNat =
      decodeInt littleEndian [p₀, p₁, p₂, p₃, p₄, p₅, p₆, p₇] := by
  have hlittle : ∀ p₀ p₁ p₂ p₃ p₄ p₅ p₆ p₇, (loadInt64 p₀ p₁ p₂ p₃ p₄ p₅ p₆ p₇ true).toNat =
      decodeInt true [p₀, p₁, p₂, p₃, p₄, p₅, p₆, p₇] := by
    intro p₀ p₁ p₂ p₃ p₄ p₅ p₆ p₇
    obtain ⟨e₁, l₁⟩ := or_byte (k := 8) (w := 64) p₁ p₀.toNat_lt (by decide)
    obtain ⟨e₂, l₂⟩ := or_byte (k := 16) (w := 64) p₂ l₁ (by decide)
    obtain ⟨e₃, l₃⟩ := or_byte (k := 24) (w := 64) p₃ l₂ (by decide)
    obtain ⟨e₄, l₄⟩ := or_byte (k := 32) (w := 64) p₄ l₃ (by decide)
    obtain ⟨e₅, l₅⟩ := or_byte (k := 40) (w := 64) p₅ l₄ (by decide)
    obtain ⟨e₆, l₆⟩ := or_byte (k := 48) (w := 64) p₆ l₅ (by decide)
    obtain ⟨e₇, -⟩ := or_byte (k := 56) (w := 64) p₇ l₆ (by decide)
    show p₀.toNat ||| p₁.toNat <<< 8 % 2 ^ 64 ||| p₂.toNat <<< 16 % 2 ^ 64 |||
        p₃.toNat <<< 24 % 2 ^ 64 ||| p₄.toNat <<< 32 % 2 ^ 64 ||| p₅.toNat <<< 40 % 2 ^ 64 |||
        p₆.toNat <<< 48 % 2 ^ 64 ||| p₇.toNat <<< 56 % 2 ^ 64 =
      p₀.toNat + 256 * (p₁.toNat + 256 * (p₂.toNat + 256 * (p₃.toNat + 256 * (p₄.toNat + 256 *
        (p₅.toNat + 256 * (p₆.toNat + 256 * (p₇.toNat + 256 * 0)))))))
    rw [e₁, e₂, e₃, e₄, e₅, e₆, e₇]
    omega
  cases littleEndian with
  | true => exact hlittle p₀ p₁ p₂ p₃ p₄ p₅ p₆ p₇
  | false => exact hlittle p₇ p₆ p₅ p₄ p₃ p₂ p₁ p₀

/-- A number of `width` bytes with its bytes in the other order. -/
def byteSwap (width v : Nat) : Nat :=
  (List.range width).foldl (fun swapped i => 256 * swapped + v / 256 ^ i % 256) 0

theorem decodeInt_encodeInt_not (width : Nat) (littleEndian : Bool) (v : Nat) :
    decodeInt (!littleEndian) (encodeInt width littleEndian v) = byteSwap width v := by
  have hswap : decodeInt true (encodeInt width false v) = byteSwap width v := by
    show List.foldr _ 0 (List.reverse (List.map _ _)) = _
    rw [List.foldr_reverse, List.foldl_map]
    congr 1
    funext swapped i
    rw [UInt8.toNat_ofNat', Nat.add_comm]
  cases littleEndian with
  | false => exact hswap
  | true => exact hswap

/-! ## The overloads -/

/-- A `peek` into a variable of `outBits` bits that holds `out`: the result, and what the
variable holds then. -/
def peekIntInto (b : DynamicBuffer) (outBits width out offset : Nat) (littleEndian : Bool) :
    Option (Bool × Nat) :=
  (b.peekInt width offset littleEndian).map fun
    | none => (false, out)
    | some v => (true, v % 2 ^ outBits)

/-- A `read` into a variable, by the `peek` of the same overload. -/
def readIntInto (b : DynamicBuffer) (outBits width out : Nat) (littleEndian : Bool) :
    Option (Bool × Nat × DynamicBuffer) :=
  (b.peekIntInto outBits width out 0 littleEndian).map fun
    | (false, out) => (false, out, b)
    | (true, out) => (true, out, b.read width)

end DynamicBuffer

/-! ## Where an integer is -/

namespace Queue

/-- How many of `n` bytes an operation takes. -/
def taken (n : Nat) : BufferOp → Nat
  | .read size => min size n
  | .readBytes count => min count n
  | .readInt width _ => if n < width then 0 else width
  | .clear => n
  | .fill _ _ | .writeBytes _ | .writeInt _ _ _ | .peekInt _ _ _ | .reserveWritableBytes _ => 0

/-- The bytes an operation adds. -/
def added : BufferOp → List UInt8
  | .fill _ data => data
  | .writeBytes data => data
  | .writeInt width v littleEndian => DynamicBuffer.encodeInt width littleEndian v
  | .read _ | .readBytes _ | .readInt _ _ | .peekInt _ _ _ | .reserveWritableBytes _ | .clear => []

theorem step_eq (q : List UInt8) (op : BufferOp) :
    (step q op).1 = q.drop (taken q.length op) ++ added op := by
  cases op with
  | fill size data => rfl
  | writeBytes data => rfl
  | writeInt width v littleEndian => rfl
  | read size =>
    simp only [step, taken, added, List.append_nil]
    rcases Nat.le_total size q.length with h | h
    · rw [Nat.min_eq_left h]
    · rw [Nat.min_eq_right h, List.drop_eq_nil_of_le h, List.drop_length]
  | readBytes count =>
    simp only [step, taken, added, List.append_nil]
    rcases Nat.le_total count q.length with h | h
    · rw [Nat.min_eq_left h]
    · rw [Nat.min_eq_right h, List.drop_eq_nil_of_le h, List.drop_length]
  | readInt width littleEndian =>
    simp only [step, taken, added, List.append_nil]
    split <;> simp
  | peekInt width offset littleEndian => simp [step, taken, added]
  | reserveWritableBytes size => simp [step, taken, added]
  | clear => simp [step, taken, added]

/-- Follow the byte at `offset` of queue `i` through a run: the queue it is in then, and
its offset there, unless it has been taken. -/
def track (qs : Nat → List UInt8) : List BuffersOp → Nat → Nat → Option (Nat × Nat)
  | [], i, offset => some (i, offset)
  | .swap j k :: ops, i, offset => track (qs ∘ Equiv.swap j k) ops (Equiv.swap j k i) offset
  | .on j op :: ops, i, offset =>
    let qs' := Function.update qs j (step (qs j) op).1
    if j = i then
      if taken (qs i).length op ≤ offset then track qs' ops i (offset - taken (qs i).length op)
      else none
    else
      track qs' ops i offset

/-- The bytes at a position that is followed stay what they are. -/
theorem track_spec {data : List UInt8} {ops : List BuffersOp} : ∀ {qs : Nat → List UInt8}
    {i offset i' offset' : Nat}, track qs ops i offset = some (i', offset') →
    data <+: (qs i).drop offset → data <+: ((run qs ops).1 i').drop offset' := by
  induction ops with
  | nil =>
    intro qs i offset i' offset' h hdata
    cases h
    exact hdata
  | cons op ops ih =>
    intro qs i offset i' offset' h hdata
    cases op with
    | swap j k =>
      refine ih h ?_
      rwa [Function.comp_apply, Equiv.swap_apply_self]
    | on j op =>
      rw [track] at h
      by_cases hj : j = i
      · subst hj
        rw [if_pos rfl] at h
        split at h
        · rename_i hle
          refine ih h ?_
          rw [Function.update_self, step_eq, List.drop_append, List.drop_drop,
            Nat.add_sub_cancel' hle]
          exact hdata.trans (List.prefix_append _ _)
        · cases h
      · rw [if_neg hj] at h
        refine ih h ?_
        rwa [Function.update_of_ne (Ne.symm hj)]

end Queue

namespace DynamicBuffer

variable {b b' : DynamicBuffer} {width : Nat}

/-- An operation as it is meant to be used: it reads an integer of one of the four widths,
and writes no more through `writeBegin()` than it has reserved. -/
def OpOk : BuffersOp → Prop
  | .on _ (.readInt width _) => width ∈ [1, 2, 4, 8]
  | .on _ (.fill size data) => data.length ≤ size
  | .on _ _ | .swap _ _ => True

/-- An operation that has returned is the one on the queue, whatever it took to grow. -/
theorem readable_of_step {op : BufferOp} {result : BufferResult} {i : Nat}
    (hop : OpOk (.on i op)) (h : b.step op = some (b', result)) :
    b'.readable = (Queue.step b.readable op).1 := by
  have hfill : ∀ {size data b'}, b.fill size data = some b' → b'.readable = b.readable ++ data := by
    intro size data b' h
    obtain ⟨b₁, e₁, h⟩ := Option.bind_eq_some_iff.mp h
    obtain ⟨b₂, e₂, h⟩ := Option.bind_eq_some_iff.mp h
    obtain rfl := Option.some.inj h
    rw [readable_copyIn_write e₂, readable_reserveWritableBytes e₁]
  cases op with
  | fill size data =>
    obtain ⟨b₁, e, h⟩ := Option.bind_eq_some_iff.mp h
    cases h
    exact hfill e
  | writeBytes data =>
    obtain ⟨b₁, e, h⟩ := Option.bind_eq_some_iff.mp h
    cases h
    exact hfill e
  | writeInt width v littleEndian =>
    obtain ⟨b₁, e, h⟩ := Option.bind_eq_some_iff.mp h
    cases h
    exact hfill e
  | read size =>
    cases h
    exact readable_read b size
  | readBytes count =>
    cases h
    exact readable_read b count
  | readInt width littleEndian =>
    rw [step, readInt_eq b hop littleEndian] at h
    rw [Queue.step]
    by_cases hlt : b.readable.length < width
    · rw [if_pos hlt] at h ⊢
      cases h
      rfl
    · rw [if_neg hlt] at h ⊢
      cases h
      exact readable_read b width
  | peekInt width offset littleEndian =>
    cases h
    rfl
  | reserveWritableBytes size =>
    obtain ⟨b₁, e, h⟩ := Option.bind_eq_some_iff.mp h
    cases h
    exact readable_reserveWritableBytes e
  | clear =>
    cases h
    exact readable_clear

/-- A run that has returned is the run on the queues. -/
theorem readable_of_run {ops : List BuffersOp} : ∀ {bs bs' : Nat → DynamicBuffer}
    {results : List BufferResult}, (∀ op ∈ ops, OpOk op) → run bs ops = some (bs', results) →
    (fun i => (bs' i).readable) = (Queue.run (fun i => (bs i).readable) ops).1 := by
  induction ops with
  | nil =>
    intro bs bs' results _ h
    cases h
    rfl
  | cons op ops ih =>
    intro bs bs' results hok h
    obtain ⟨hop, hops⟩ := List.forall_mem_cons.mp hok
    cases op with
    | swap i j => exact ih hops h
    | on i op =>
      obtain ⟨⟨b₁, result⟩, e, h⟩ := Option.bind_eq_some_iff.mp h
      obtain ⟨⟨bs₂, results₂⟩, e₂, h⟩ := Option.bind_eq_some_iff.mp h
      cases h
      have hupdate : (fun k => (Function.update bs i b₁ k).readable) =
          Function.update (fun k => (bs k).readable) i (Queue.step (bs i).readable op).1 := by
        funext k
        by_cases hk : k = i
        · subst hk
          rw [Function.update_self, Function.update_self, readable_of_step hop e]
        · rw [Function.update_of_ne hk, Function.update_of_ne hk]
      rw [ih hops e₂, hupdate]
      rfl

theorem decodeInt_lt (littleEndian : Bool) (bytes : List UInt8) :
    decodeInt littleEndian bytes < 256 ^ bytes.length := by
  have hlittle : ∀ bytes : List UInt8, decodeInt true bytes < 256 ^ bytes.length := by
    intro bytes
    induction bytes with
    | nil => exact Nat.one_pos
    | cons d bytes ih =>
      have hd : d.toNat < 256 := d.toNat_lt
      have hcons : decodeInt true (d :: bytes) = d.toNat + 256 * decodeInt true bytes := rfl
      rw [hcons, List.length_cons, Nat.pow_succ]
      omega
  cases littleEndian with
  | true => exact hlittle bytes
  | false =>
    rw [decodeInt_false, ← List.length_reverse]
    exact hlittle _

/-- The integer `v` of `width` bytes is at `offset`: it is peeked at by every overload, and
read where it comes first; the other byte order gives it with its bytes swapped. -/
structure Holds (b : DynamicBuffer) (width v : Nat) (littleEndian : Bool) (offset : Nat) :
    Prop where
  peek : ∀ outBits out, 8 * width ≤ outBits →
    b.peekIntInto outBits width out offset littleEndian = some (true, v)
  peekSwapped : ∀ outBits out, 8 * width ≤ outBits →
    b.peekIntInto outBits width out offset (!littleEndian) = some (true, byteSwap width v)
  read : offset = 0 → ∀ outBits out, 8 * width ≤ outBits →
    b.readIntInto outBits width out littleEndian = some (true, v, b.read width)
  readSwapped : offset = 0 → ∀ outBits out, 8 * width ≤ outBits →
    b.readIntInto outBits width out (!littleEndian) =
      some (true, byteSwap width v, b.read width)

theorem readableBytes_lt (b : DynamicBuffer) : b.readableBytes < 2 ^ 63 :=
  ((Nat.sub_le _ _).trans b.write_le).trans_lt b.length_lt

/-- The bytes at an offset are what is peeked at there. -/
theorem peekInt_of_prefix {data : List UInt8} {offset : Nat} (hwidth : data.length ∈ [1, 2, 4, 8])
    (h : data <+: b.readable.drop offset) (littleEndian : Bool) :
    b.peekInt data.length offset littleEndian = some (some (decodeInt littleEndian data)) := by
  have hpos : 0 < data.length ∧ data.length ≤ 8 := by
    simp only [List.mem_cons, List.not_mem_nil, or_false] at hwidth
    omega
  have hle := h.length_le
  rw [List.length_drop, length_readable] at hle
  have hlt := b.readableBytes_lt
  have hmod : (offset + data.length) % 2 ^ 64 = offset + data.length := by omega
  unfold peekInt
  rw [hmod, if_neg (by omega), slice, if_pos (by rw [length_readable]; omega),
    ← List.prefix_iff_eq_take.mp h]
  rfl

theorem holds_of_prefix {v offset : Nat} {littleEndian : Bool} (hwidth : width ∈ [1, 2, 4, 8])
    (hv : v < 256 ^ width) (h : encodeInt width littleEndian v <+: b.readable.drop offset) :
    b.Holds width v littleEndian offset := by
  have hlen := @length_encodeInt width littleEndian v
  have hpeek := peekInt_of_prefix (by rwa [hlen]) h
  rw [hlen] at hpeek
  have hmod : ∀ outBits (w : Nat), 8 * width ≤ outBits → w < 256 ^ width → w % 2 ^ outBits = w := by
    intro outBits w hbits hw
    refine Nat.mod_eq_of_lt (hw.trans_le ?_)
    rw [show 256 = 2 ^ 8 from rfl, ← Nat.pow_mul]
    exact Nat.pow_le_pow_right (by decide) hbits
  have hsame := hpeek littleEndian
  have hother := hpeek (!littleEndian)
  have hswap : byteSwap width v < 256 ^ width := by
    rw [← decodeInt_encodeInt_not width littleEndian v]
    exact (decodeInt_lt _ _).trans_eq (by rw [hlen])
  rw [decodeInt_encodeInt, Nat.mod_eq_of_lt hv] at hsame
  rw [decodeInt_encodeInt_not] at hother
  have hpeeks : ∀ outBits out, 8 * width ≤ outBits →
      b.peekIntInto outBits width out offset littleEndian = some (true, v) := by
    intro outBits out hbits
    rw [peekIntInto, hsame, Option.map_some]
    dsimp only
    rw [hmod _ _ hbits hv]
  have hpeeksSwapped : ∀ outBits out, 8 * width ≤ outBits →
      b.peekIntInto outBits width out offset (!littleEndian) =
        some (true, byteSwap width v) := by
    intro outBits out hbits
    rw [peekIntInto, hother, Option.map_some]
    dsimp only
    rw [hmod _ _ hbits hswap]
  refine ⟨hpeeks, hpeeksSwapped, ?_, ?_⟩
  · rintro rfl outBits out hbits
    rw [readIntInto, hpeeks outBits out hbits, Option.map_some]
  · rintro rfl outBits out hbits
    rw [readIntInto, hpeeksSwapped outBits out hbits, Option.map_some]

/-! ## Runs in which operations throw -/

/-- The room that an operation makes first, and the bytes that it then writes there. -/
def reserved : BufferOp → Option (Nat × List UInt8)
  | .fill size data => some (size, data)
  | .writeBytes data => some (data.length, data)
  | .writeInt width v littleEndian => some (width, encodeInt width littleEndian v)
  | .reserveWritableBytes size => some (size, [])
  | .read _ | .readBytes _ | .readInt _ _ | .peekInt _ _ _ | .clear => none

/-- The operation throws, before it has changed anything. -/
def OpThrows (b : DynamicBuffer) (op : BufferOp) : Prop :=
  ∃ r, reserved op = some r ∧ b.Throws r.1

instance : Decidable (b.Throws width) := inferInstanceAs (Decidable (_ ∧ _))

instance (b : DynamicBuffer) (op : BufferOp) : Decidable (b.OpThrows op) :=
  match h : reserved op with
  | none => .isFalse fun ⟨r, hr, _⟩ => by rw [h] at hr; cases hr
  | some r => decidable_of_iff (b.Throws r.1)
      ⟨fun ht => ⟨r, h, ht⟩, fun ⟨r', hr, ht⟩ => Option.some.inj (h.symm.trans hr) ▸ ht⟩

/-- The operation makes a buffer grow to a capacity that has wrapped, and that has no room
for what is readable and what is written. -/
def Harms (b : DynamicBuffer) (op : BufferOp) : Prop :=
  ∃ r, reserved op = some r ∧ b.Wraps r.1 ∧
    b.newCapacity r.1 < b.readableBytes + r.2.length

theorem OpThrows.not_harms {op : BufferOp} (h : b.OpThrows op) : ¬ b.Harms op := by
  rintro ⟨r, hr, hwraps, -⟩
  obtain ⟨r', hr', hthrows⟩ := h
  obtain rfl := Option.some.inj (hr.symm.trans hr')
  exact hthrows.not_wraps hwraps

theorem copyIn_eq_none {data : List UInt8} (h : b.writableBytes < data.length) :
    b.copyIn data = none := by
  have hle := b.write_le
  have hcopy : memcpy b.buffer b.writeIndex data = none := by
    refine if_neg ?_
    unfold writableBytes at h
    omega
  unfold copyIn
  split
  · rfl
  · rename_i hsome
    rw [hcopy] at hsome
    cases hsome

theorem moveTo_eq_none {storage : List UInt8} {hlt : storage.length < 2 ^ 63}
    (h : storage.length < b.readableBytes) : b.moveTo storage hlt = none := by
  cases e : b.moveTo storage hlt with
  | none => rfl
  | some b' => exact absurd (moveTo_some e).1 (Nat.not_le.mpr h)

/-- Room is made, and bytes are written there, unless the allocation throws or the copies
leave a storage whose size has wrapped. -/
theorem fill_eq_none_iff {size : Nat} {data : List UInt8} (hdata : data.length ≤ size) :
    b.fill size data = none ↔
      b.Throws size ∨ (b.Wraps size ∧ b.newCapacity size < b.readableBytes + data.length) := by
  rcases b.fits_or size with hfits | hthrows | hwraps
  · obtain ⟨b', e, -⟩ := fill_spec hfits hdata
    refine iff_of_false (fun hnone => Option.some_ne_none _ (e.symm.trans hnone)) ?_
    rintro (⟨hgrows, hlarge⟩ | ⟨⟨hgrows, hlarge, -⟩, -⟩)
    · have hlt : b.grownCapacity size < 2 ^ 63 := hfits.resolve_left (Nat.not_le.mpr hgrows)
      unfold newCapacity at hlarge
      omega
    · have hlt : b.grownCapacity size < 2 ^ 63 := hfits.resolve_left (Nat.not_le.mpr hgrows)
      omega
  · have hnone : b.fill size data = none := by
      rw [fill, hthrows.reserveWritableBytes]
      rfl
    exact iff_of_true hnone (.inl hthrows)
  · have hthrows : ¬ b.Throws size := fun h => h.not_wraps hwraps
    have hreserve := reserveWritableBytes_of_grows hwraps.1
    rw [dif_pos hwraps.2.2] at hreserve
    by_cases hkept : b.readableBytes ≤ b.newCapacity size
    · -- the readable bytes fit what is left of the capacity, and the question is the data
      obtain ⟨b₁, e₁, -, -, hwritable, -⟩ := moveTo_spec (b := b)
        (List.replicate (b.newCapacity size) 0) (by rw [List.length_replicate]; exact hwraps.2.2)
        (by rwa [List.length_replicate])
      rw [e₁] at hreserve
      rw [List.length_replicate] at hwritable
      have hfill : b.fill size data = (b₁.copyIn data).bind fun b => some (b.write data.length) := by
        rw [fill, hreserve]
        rfl
      by_cases hroom : data.length ≤ b₁.writableBytes
      · obtain ⟨b₂, e₂, -⟩ := copyIn_write hroom
        rw [hfill, e₂]
        exact iff_of_false (Option.some_ne_none _) fun h => by
          have hshort := (h.resolve_left hthrows).2
          omega
      · rw [hfill, copyIn_eq_none (Nat.not_le.mp hroom)]
        exact iff_of_true rfl (.inr ⟨hwraps, by omega⟩)
    · have hnone : b.fill size data = none := by
        rw [fill, hreserve, moveTo_eq_none (by rw [List.length_replicate]; omega)]
        rfl
      exact iff_of_true hnone (.inr ⟨hwraps, by omega⟩)

theorem reserveWritableBytes_eq_none_iff {size : Nat} :
    b.reserveWritableBytes size = none ↔ b.fill size [] = none := by
  unfold fill
  cases b.reserveWritableBytes size with
  | none => exact iff_of_true rfl rfl
  | some b₁ =>
    obtain ⟨b₂, e, -⟩ := @copyIn_write b₁ [] (Nat.zero_le _)
    simp [e]

/-- An operation that does not return has thrown or done harm. -/
theorem step_eq_none_iff {op : BufferOp} {i : Nat} (hop : OpOk (.on i op)) :
    b.step op = none ↔ b.OpThrows op ∨ b.Harms op := by
  have hreserved : ∀ {size data}, reserved op = some (size, data) → data.length ≤ size →
      (b.step op = none ↔ b.fill size data = none) →
      (b.step op = none ↔ b.OpThrows op ∨ b.Harms op) := by
    intro size data h hdata hstep
    rw [hstep, fill_eq_none_iff hdata]
    simp [OpThrows, Harms, h]
  have hplain : reserved op = none → b.step op ≠ none →
      (b.step op = none ↔ b.OpThrows op ∨ b.Harms op) := by
    intro h hstep
    refine iff_of_false hstep ?_
    simp [OpThrows, Harms, h]
  have hvoid : ∀ r : Option DynamicBuffer,
      (r.bind fun b => some (b, BufferResult.void)) = none ↔ r = none := by
    intro r
    cases r <;> simp
  cases op with
  | fill size data => exact hreserved rfl hop (hvoid _)
  | writeBytes data => exact hreserved rfl le_rfl (hvoid _)
  | writeInt width v littleEndian =>
    exact hreserved rfl (length_encodeInt littleEndian v).le (hvoid _)
  | reserveWritableBytes size =>
    exact hreserved rfl (Nat.zero_le _) ((hvoid _).trans reserveWritableBytes_eq_none_iff)
  | readInt width littleEndian =>
    refine hplain rfl ?_
    rw [step, readInt_eq b hop littleEndian]
    split <;> exact Option.some_ne_none _
  | read size => exact hplain rfl (Option.some_ne_none _)
  | readBytes count => exact hplain rfl (Option.some_ne_none _)
  | peekInt width offset littleEndian => exact hplain rfl (Option.some_ne_none _)
  | clear => exact hplain rfl (Option.some_ne_none _)

/-- The operations of a run that do not throw: the others leave everything as it is. -/
def returning (bs : Nat → DynamicBuffer) : List BuffersOp → List BuffersOp
  | [] => []
  | .swap i j :: ops => .swap i j :: returning (bs ∘ Equiv.swap i j) ops
  | .on i op :: ops =>
    if (bs i).OpThrows op then returning bs ops
    else .on i op :: returning (Function.update bs i (((bs i).step op).elim (bs i) Prod.fst)) ops

/-- No operation of a run does harm. -/
def Safe (bs : Nat → DynamicBuffer) : List BuffersOp → Prop
  | [] => True
  | .swap i j :: ops => Safe (bs ∘ Equiv.swap i j) ops
  | .on i op :: ops => ¬ (bs i).Harms op ∧ ((bs i).OpThrows op → Safe bs ops) ∧
      ∀ b result, (bs i).step op = some (b, result) → Safe (Function.update bs i b) ops

theorem returning_ok {ops : List BuffersOp} : ∀ {bs : Nat → DynamicBuffer},
    (∀ op ∈ ops, OpOk op) → ∀ op ∈ returning bs ops, OpOk op := by
  induction ops with
  | nil => exact fun hok => hok
  | cons op ops ih =>
    intro bs hok
    obtain ⟨hop, hops⟩ := List.forall_mem_cons.mp hok
    cases op with
    | swap i j => exact List.forall_mem_cons.mpr ⟨hop, ih hops⟩
    | on i op =>
      rw [returning]
      split
      · exact ih hops
      · exact List.forall_mem_cons.mpr ⟨hop, ih hops⟩

/-- A run stays inside the storages exactly if no operation of it does harm. -/
theorem run_returning_iff {ops : List BuffersOp} : ∀ {bs : Nat → DynamicBuffer},
    (∀ op ∈ ops, OpOk op) →
    ((∃ bs' results, run bs (returning bs ops) = some (bs', results)) ↔ Safe bs ops) := by
  induction ops with
  | nil => exact fun {bs} _ => iff_of_true ⟨bs, [], rfl⟩ trivial
  | cons op ops ih =>
    intro bs hok
    obtain ⟨hop, hops⟩ := List.forall_mem_cons.mp hok
    cases op with
    | swap i j => exact ih hops
    | on i op =>
      have hnone := step_eq_none_iff (b := bs i) hop
      rw [returning, Safe]
      by_cases hthrows : (bs i).OpThrows op
      · rw [if_pos hthrows, ih hops, hnone.mpr (.inl hthrows)]
        exact ⟨fun h => ⟨hthrows.not_harms, fun _ => h, fun _ _ he => absurd he.symm (Option.some_ne_none _)⟩,
          fun h => h.2.1 hthrows⟩
      · rw [if_neg hthrows]
        cases e : (bs i).step op with
        | none =>
          have hharms := (hnone.mp e).resolve_left hthrows
          refine iff_of_false ?_ fun h => h.1 hharms
          rintro ⟨bs', results, hrun⟩
          simp [run, e] at hrun
        | some r =>
          obtain ⟨b, result⟩ := r
          have hharms : ¬ (bs i).Harms op := fun h =>
            Option.some_ne_none _ (e.symm.trans (hnone.mpr (.inr h)))
          have hrest := @ih (Function.update bs i b) hops
          constructor
          · rintro ⟨bs', results, hrun⟩
            rw [run, e] at hrun
            obtain ⟨_, hstep, hrun⟩ := Option.bind_eq_some_iff.mp hrun
            obtain ⟨⟨bs₂, results₂⟩, e₂, -⟩ := Option.bind_eq_some_iff.mp hrun
            cases hstep
            refine ⟨hharms, fun h => absurd h hthrows, fun b' result' h => ?_⟩
            cases h
            exact hrest.mp ⟨bs₂, results₂, e₂⟩
          · rintro ⟨-, -, hsafe⟩
            obtain ⟨bs', results, e₂⟩ := hrest.mpr (hsafe b result rfl)
            refine ⟨bs', result :: results, ?_⟩
            simp [run, e, e₂]

/-- Writing an integer to buffer `i` throws, or leaves it where it is found, as long as its
bytes have not been taken, after the operations `ops`, which stay inside their storages. -/
def KeepsInt (bs : Nat → DynamicBuffer) (i width v : Nat) (littleEndian : Bool)
    (ops : List BuffersOp) : Prop :=
  (bs i).Throws width ∨ ∃ b, (bs i).writeInt width v littleEndian = some b ∧
    let bs₁ := Function.update bs i b
    ∃ bs' results, run bs₁ (returning bs₁ ops) = some (bs', results) ∧
      ∀ i' offset, Queue.track (fun k => (bs₁ k).readable) (returning bs₁ ops) i
        (bs i).readableBytes = some (i', offset) → (bs' i').Holds width v littleEndian offset

/-- Reading an integer takes its bytes, or leaves the buffer and the variable as they are. -/
theorem readIntInto_spec (hwidth : width ∈ [1, 2, 4, 8]) (b : DynamicBuffer) (outBits out : Nat)
    (littleEndian : Bool) :
    (b.readableBytes < width ∧
      b.readIntInto outBits width out littleEndian = some (false, out, b)) ∨
    ∃ v, b.readIntInto outBits width out littleEndian = some (true, v, b.read width) ∧
      width ≤ b.readableBytes ∧ (b.read width).readable = b.readable.drop width := by
  have hpos : 0 < width ∧ width ≤ 8 := by
    simp only [List.mem_cons, List.not_mem_nil, or_false] at hwidth
    omega
  have hmod : (0 + width) % 2 ^ 64 = width := by omega
  unfold readIntInto peekIntInto peekInt
  rw [hmod]
  by_cases hshort : b.readableBytes < width
  · rw [if_pos hshort]
    exact .inl ⟨hshort, rfl⟩
  · rw [if_neg hshort, slice, if_pos (by rw [length_readable]; omega)]
    exact .inr ⟨_, rfl, Nat.not_lt.mp hshort, readable_read b width⟩

/-- For every state of the buffers, width, value and byte order, and every run of operations
on any buffers afterwards: the integer that is written is found again, in its own order and
the other one and by every overload, as long as its bytes have not been taken, exactly if no
capacity wraps into less than is needed, neither when it is written nor when a buffer
grows afterwards. A read takes the bytes of the integer, or changes nothing. -/
theorem keepsInt_iff {bs : Nat → DynamicBuffer} {i v : Nat} {ops : List BuffersOp}
    (hwidth : width ∈ [1, 2, 4, 8]) (hv : v < 256 ^ width) (hexpand : (bs i).expandSize < 2 ^ 64)
    (hops : ∀ op ∈ ops, OpOk op) (littleEndian : Bool) :
    (KeepsInt bs i width v littleEndian ops ↔
      ¬ (bs i).Wraps width ∧ ∀ b, (bs i).writeInt width v littleEndian = some b →
        Safe (Function.update bs i b) ops) ∧
      ∀ (b : DynamicBuffer) (outBits out : Nat) (littleEndian : Bool),
        (b.readableBytes < width ∧
          b.readIntInto outBits width out littleEndian = some (false, out, b)) ∨
        ∃ v, b.readIntInto outBits width out littleEndian = some (true, v, b.read width) ∧
          width ≤ b.readableBytes ∧ (b.read width).readable = b.readable.drop width := by
  have hlen := @length_encodeInt width littleEndian v
  refine ⟨⟨?_, ?_⟩, readIntInto_spec hwidth⟩
  · rintro (hthrows | ⟨b, hwrite, bs', results, hrun, -⟩)
    · have hnone : (bs i).writeInt width v littleEndian = none :=
        (fill_eq_none_iff hlen.le).mpr (.inl hthrows)
      exact ⟨hthrows.not_wraps, fun b hb => absurd (hb.symm.trans hnone) (Option.some_ne_none _)⟩
    · refine ⟨fun hwraps => ?_, fun b' hb' => ?_⟩
      · have hnone : (bs i).writeInt width v littleEndian = none := hwraps.fill hexpand hlen
        exact absurd (hwrite.symm.trans hnone) (Option.some_ne_none _)
      · obtain rfl := Option.some.inj (hwrite.symm.trans hb')
        exact (run_returning_iff hops).mp ⟨bs', results, hrun⟩
  · rintro ⟨hwraps, hsafe⟩
    rcases (bs i).fits_or width with hfits | hthrows | h
    · obtain ⟨b, hwrite, hread⟩ := fill_spec hfits hlen.le
      obtain ⟨bs', results, hrun⟩ := (run_returning_iff hops).mpr (hsafe b hwrite)
      refine .inr ⟨b, hwrite, bs', results, hrun, fun i' offset htrack => ?_⟩
      refine holds_of_prefix hwidth hv ?_
      have hqueue := congrFun (readable_of_run (returning_ok hops) hrun) i'
      rw [hqueue]
      refine Queue.track_spec htrack ?_
      rw [Function.update_self, hread, List.drop_left' (length_readable _)]
    · exact .inl hthrows
    · exact absurd h hwraps

/-- Two bytes written to a buffer of one byte that grows by one, then one byte behind them
before the buffers are exchanged. -/
theorem keepsInt_iff_grow :
    KeepsInt (fun _ => (construct 1 1).get (by decide)) 0 2 0x1234 false
      [.on 0 (.writeBytes [7]), .swap 0 1, .on 1 (.peekInt 2 0 false)] := by
  have hops : ∀ op ∈ [BuffersOp.on 0 (.writeBytes [7]), .swap 0 1, .on 1 (.peekInt 2 0 false)],
      OpOk op := by
    intro op hop
    simp only [List.mem_cons, List.not_mem_nil, or_false] at hop
    rcases hop with rfl | rfl | rfl <;> trivial
  refine (@keepsInt_iff 2 (fun _ => (construct 1 1).get (by decide)) 0 0x1234 _ (by decide)
    (by decide) (by decide) hops false).1.mpr ⟨by decide, fun b hb => ?_⟩
  cases hb
  exact (run_returning_iff hops).mp ⟨_, _, rfl⟩

/-- A buffer that grows by `SIZE_MAX` bytes has the capacity zero after it has grown: the
first byte, which has been written without harm, is copied to a storage of none. -/
theorem not_keepsInt : ∃ b₀ b, construct 1 (2 ^ 64 - 1) = some b₀ ∧ b₀.writeInt8 7 = some b ∧
    b.writeInt8 8 = none ∧ b.newCapacity 1 = 0 ∧
    ¬ KeepsInt (fun _ => b₀) 0 1 7 false [.on 0 (.writeInt 1 8 false)] := by
  have hnone : ((((construct 1 (2 ^ 64 - 1)).get (by decide)).writeInt8 7).get
      (by decide +kernel)).writeInt8 8 = none := by decide +kernel
  have hzero : ((((construct 1 (2 ^ 64 - 1)).get (by decide)).writeInt8 7).get
      (by decide +kernel)).newCapacity 1 = 0 := by decide +kernel
  refine ⟨_, _, (Option.some_get _).symm, (Option.some_get _).symm, hnone, hzero, ?_⟩
  rintro (⟨hgrows, -⟩ | ⟨b, hwrite, bs', results, hrun, -⟩)
  · exact absurd hgrows (by decide)
  · obtain rfl := Option.some.inj (hwrite.symm.trans (Option.some_get (by decide +kernel)).symm)
    have hsafe := (run_returning_iff (by simp [OpOk])).mp ⟨bs', results, hrun⟩
    refine hsafe.1 ⟨(1, encodeInt 1 false 8), rfl, ?_, ?_⟩
    · decide +kernel
    · decide +kernel

end DynamicBuffer

end Brickred
