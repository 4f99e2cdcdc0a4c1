import Mathlib.Algebra.Group.Nat.Defs
import Mathlib.Data.List.Basic
import Mathlib.Order.Nat

/-!
# `DynamicBuffer` (`dynamic_buffer.h`, `dynamic_buffer.cc`)

A byte vector with two indices: the bytes between `readIndex` and `writeIndex`
are readable, those behind `writeIndex` writable, those before `readIndex` can be
discarded. That the indices are in order and inside the storage is part of the
type.

`none` is a copy that leaves its storage, or a `std::vector` of more than
`PTRDIFF_MAX` bytes, which throws. Sizes are `size_t`: the two places where a sum
of sizes can pass `2 ^ 64` take it modulo `2 ^ 64`, as the code does.
-/

namespace Brickred

/-- `memcpy` to `dst` from `pos` on: undefined if the bytes do not fit. -/
def memcpy (dst : List UInt8) (pos : Nat) (src : List UInt8) : Option (List UInt8) :=
  if pos + src.length ≤ dst.length then
    some (dst.take pos ++ src ++ dst.drop (pos + src.length))
  else
    none

/-- The `n` bytes of `src` from `pos` on: undefined if they are not all there. -/
def slice (src : List UInt8) (pos n : Nat) : Option (List UInt8) :=
  if pos + n ≤ src.length then some ((src.drop pos).take n) else none

theorem length_memcpy {dst src l : List UInt8} {pos : Nat} (h : memcpy dst pos src = some l) :
    l.length = dst.length ∧ pos + src.length ≤ dst.length := by
  unfold memcpy at h
  split at h
  · rename_i hle
    cases h
    refine ⟨?_, hle⟩
    simp only [List.length_append, List.length_take, List.length_drop]
    omega
  · cases h

structure DynamicBuffer where
  buffer : List UInt8
  expandSize : Nat
  readIndex : Nat
  writeIndex : Nat
  expand_pos : 0 < expandSize
  read_le : readIndex ≤ writeIndex
  write_le : writeIndex ≤ buffer.length
  length_lt : buffer.length < 2 ^ 63

namespace DynamicBuffer

/-- `DynamicBuffer::DynamicBuffer` -/
def construct (initSize expandSize : Nat) : Option DynamicBuffer :=
  let expandSize := if expandSize = 0 then 1 else expandSize
  let size := if initSize = 0 then expandSize else initSize
  if h : size < 2 ^ 63 then
    some
      { buffer := List.replicate size 0, expandSize, readIndex := 0, writeIndex := 0
        expand_pos := by
          show 0 < if _ then _ else _
          split <;> omega
        read_le := Nat.le_refl _
        write_le := Nat.zero_le _
        length_lt := by rwa [List.length_replicate] }
  else
    none

variable (b : DynamicBuffer)

def capacity : Nat := b.buffer.length
def discardableBytes : Nat := b.readIndex
def readableBytes : Nat := b.writeIndex - b.readIndex
def writableBytes : Nat := b.buffer.length - b.writeIndex

/-- The readable bytes: those from `readBegin()` on. -/
def readable : List UInt8 := (b.buffer.drop b.readIndex).take b.readableBytes

@[simp] theorem length_readable : b.readable.length = b.readableBytes := by
  have h₁ := b.read_le
  have h₂ := b.write_le
  unfold readable readableBytes
  simp only [List.length_take, List.length_drop]
  omega

/-- `DynamicBuffer::clear` -/
def clear : DynamicBuffer :=
  { b with readIndex := 0, writeIndex := 0, read_le := Nat.le_refl _, write_le := Nat.zero_le _ }

/-- `DynamicBuffer::read` -/
def read (size : Nat) : DynamicBuffer :=
  let readIndex := b.readIndex + min size b.readableBytes
  if readIndex = b.writeIndex then
    b.clear
  else
    { b with
      readIndex
      read_le := by
        have h := b.read_le
        show b.readIndex + min size (b.writeIndex - b.readIndex) ≤ b.writeIndex
        omega }

/-- `DynamicBuffer::write` -/
def write (size : Nat) : DynamicBuffer :=
  { b with
    writeIndex := b.writeIndex + min size b.writableBytes
    read_le := Nat.le_add_right_of_le b.read_le
    write_le := by
      have h := b.write_le
      show b.writeIndex + min size (b.buffer.length - b.writeIndex) ≤ b.buffer.length
      omega }

/-- `memcpy` of the readable bytes to the front of a storage that then becomes
the buffer's. -/
def moveTo (storage : List UInt8) (hlt : storage.length < 2 ^ 63) : Option DynamicBuffer :=
  match h : memcpy storage 0 b.readable with
  | none => none
  | some buffer => some
      { buffer, expandSize := b.expandSize, readIndex := 0, writeIndex := b.readableBytes
        expand_pos := b.expand_pos
        read_le := Nat.zero_le _
        write_le := by
          have hlen := length_memcpy h
          rw [length_readable] at hlen
          omega
        length_lt := (length_memcpy h).1 ▸ hlt }

/-- The capacity `reserveWritableBytes` grows to. -/
def grownCapacity (size : Nat) : Nat :=
  b.capacity +
    b.expandSize * ((size - (b.discardableBytes + b.writableBytes)) / b.expandSize + 1)

/-- `DynamicBuffer::reserveWritableBytes` -/
def reserveWritableBytes (size : Nat) : Option DynamicBuffer :=
  if b.writableBytes ≥ size then
    some b
  else if b.discardableBytes + b.writableBytes ≥ size then
    -- do compact
    b.moveTo b.buffer b.length_lt
  else
    -- do expand
    let newSize := b.grownCapacity size % 2 ^ 64
    if h : newSize < 2 ^ 63 then
      b.moveTo (List.replicate newSize 0) (by rwa [List.length_replicate])
    else
      none

/-- `memcpy` of `data` to `writeBegin()`. -/
def copyIn (data : List UInt8) : Option DynamicBuffer :=
  match h : memcpy b.buffer b.writeIndex data with
  | none => none
  | some buffer => some
      { b with
        buffer
        write_le := (length_memcpy h).1 ▸ b.write_le
        length_lt := (length_memcpy h).1 ▸ b.length_lt }

/-- `reserveWritableBytes(size)`, then bytes written through `writeBegin()`, then
`write()` of as many. -/
def fill (size : Nat) (data : List UInt8) : Option DynamicBuffer := do
  let b ← b.reserveWritableBytes size
  let b ← b.copyIn data
  some (b.write data.length)

/-- `DynamicBuffer::writeBytes`. The index moves by the bytes just copied, which
are inside the storage, so `write` moves it as far. -/
def writeBytes (data : List UInt8) : Option DynamicBuffer := b.fill data.length data

/-- `DynamicBuffer::readBytes` -/
def readBytes (count : Nat) : List UInt8 × DynamicBuffer :=
  (b.readable.take (min count b.readableBytes), b.read count)

/-! ## Integers -/

/-- The `width` bytes of an integer, the most significant first unless
`littleEndian`. -/
def encodeInt (width : Nat) (littleEndian : Bool) (v : Nat) : List UInt8 :=
  let bytes := (List.range width).map fun i => UInt8.ofNat (v / 256 ^ i)
  if littleEndian then bytes else bytes.reverse

/-- The integer a list of bytes stands for. -/
def decodeInt (littleEndian : Bool) (bytes : List UInt8) : Nat :=
  (if littleEndian then bytes else bytes.reverse).foldr (fun d v => d.toNat + 256 * v) 0

/-- The body of `writeInt8` to `writeInt64`. -/
def writeInt (width : Nat) (v : Nat) (littleEndian : Bool) : Option DynamicBuffer :=
  b.fill width (encodeInt width littleEndian v)

/-- The body of `peekInt8` to `peekInt64`: `some none` is the result `false`. The
sum of offset and width is a `size_t`; the read is undefined outside the readable
bytes. -/
def peekInt (width : Nat) (offset : Nat) (littleEndian : Bool) : Option (Option Nat) :=
  if b.readableBytes < (offset + width) % 2 ^ 64 then
    some none
  else
    (slice b.readable offset width).map fun bytes => some (decodeInt littleEndian bytes)

/-- The body of `readInt8` to `readInt64`. -/
def readInt (width : Nat) (littleEndian : Bool) : Option (Option Nat × DynamicBuffer) := do
  match ← b.peekInt width 0 littleEndian with
  | none => some (none, b)
  | some v => some (some v, b.read width)

def writeInt8 (v : Nat) : Option DynamicBuffer := b.writeInt 1 v false
def writeInt16 (v : Nat) (littleEndian : Bool) : Option DynamicBuffer := b.writeInt 2 v littleEndian
def writeInt32 (v : Nat) (littleEndian : Bool) : Option DynamicBuffer := b.writeInt 4 v littleEndian
def writeInt64 (v : Nat) (littleEndian : Bool) : Option DynamicBuffer := b.writeInt 8 v littleEndian
def peekInt8 (offset : Nat) : Option (Option Nat) := b.peekInt 1 offset false
def peekInt16 (offset : Nat) (littleEndian : Bool) : Option (Option Nat) :=
  b.peekInt 2 offset littleEndian
def peekInt32 (offset : Nat) (littleEndian : Bool) : Option (Option Nat) :=
  b.peekInt 4 offset littleEndian
def peekInt64 (offset : Nat) (littleEndian : Bool) : Option (Option Nat) :=
  b.peekInt 8 offset littleEndian
def readInt8 : Option (Option Nat × DynamicBuffer) := b.readInt 1 false
def readInt16 (littleEndian : Bool) : Option (Option Nat × DynamicBuffer) := b.readInt 2 littleEndian
def readInt32 (littleEndian : Bool) : Option (Option Nat × DynamicBuffer) := b.readInt 4 littleEndian
def readInt64 (littleEndian : Bool) : Option (Option Nat × DynamicBuffer) := b.readInt 8 littleEndian

/-! ## What the operations do to the readable bytes -/

variable {b} {size : Nat} {data : List UInt8}

@[simp] theorem readable_clear : b.clear.readable = [] := by
  simp [readable, readableBytes, clear]

theorem readable_read (b : DynamicBuffer) (size : Nat) :
    (b.read size).readable = b.readable.drop size := by
  have h₁ := b.read_le
  have h₂ := b.write_le
  unfold read
  dsimp only
  split
  · rename_i heq
    rw [readable_clear, List.drop_eq_nil_of_le]
    rw [length_readable]
    unfold readableBytes at *
    omega
  · rename_i hne
    unfold readable readableBytes at *
    dsimp only
    rw [List.drop_take, List.drop_drop]
    have hsize : min size (b.writeIndex - b.readIndex) = size := by omega
    rw [hsize]
    congr 1
    omega

/-- Moving the readable bytes to another storage keeps them. -/
theorem moveTo_spec (storage : List UInt8) (hlt : storage.length < 2 ^ 63)
    (hfit : b.readableBytes ≤ storage.length) :
    ∃ b', b.moveTo storage hlt = some b' ∧ b'.readable = b.readable ∧
      b'.capacity = storage.length ∧ b'.writableBytes = storage.length - b.readableBytes ∧
      b'.expandSize = b.expandSize := by
  have hcopy : memcpy storage 0 b.readable =
      some (b.readable ++ storage.drop b.readableBytes) := by
    unfold memcpy
    rw [if_pos (by rwa [length_readable, Nat.zero_add]), length_readable]
    simp
  have hlen := (length_memcpy hcopy).1
  unfold moveTo
  split
  · rename_i hnone
    rw [hcopy] at hnone
    cases hnone
  · rename_i buffer hsome
    obtain rfl : b.readable ++ storage.drop b.readableBytes = buffer :=
      Option.some.inj (hcopy.symm.trans hsome)
    refine ⟨_, rfl, ?_, hlen, ?_, rfl⟩
    · show List.take (b.readableBytes - 0) (List.drop 0 _) = _
      rw [List.drop_zero, Nat.sub_zero, List.take_append_of_le_length (by simp),
        List.take_of_length_le (by simp)]
    · show List.length _ - b.readableBytes = _
      rw [hlen]

/-- Enough room, or a capacity after growing that a vector can have. -/
def Fits (b : DynamicBuffer) (size : Nat) : Prop :=
  size ≤ b.discardableBytes + b.writableBytes ∨ b.grownCapacity size < 2 ^ 63

theorem grownCapacity_ge (b : DynamicBuffer) (size : Nat) :
    b.readableBytes + size ≤ b.grownCapacity size ∧ b.capacity ≤ b.grownCapacity size := by
  have h₁ := b.read_le
  have h₂ := b.write_le
  have hmul := Nat.lt_mul_div_succ
    (size - (b.discardableBytes + b.writableBytes)) b.expand_pos
  unfold grownCapacity
  generalize b.expandSize * _ = grow at *
  unfold readableBytes discardableBytes writableBytes capacity at *
  omega

/-- `reserveWritableBytes` makes room, keeps the readable bytes and never
shrinks. -/
theorem reserveWritableBytes_spec (hfit : b.Fits size) :
    ∃ b', b.reserveWritableBytes size = some b' ∧ b'.readable = b.readable ∧
      size ≤ b'.writableBytes ∧ b.capacity ≤ b'.capacity := by
  have h₁ := b.read_le
  have h₂ := b.write_le
  have hgrown := b.grownCapacity_ge size
  unfold reserveWritableBytes
  by_cases hroom : b.writableBytes ≥ size
  · exact ⟨b, if_pos hroom, rfl, hroom, le_rfl⟩
  · rw [if_neg hroom]
    by_cases hcompact : b.discardableBytes + b.writableBytes ≥ size
    · rw [if_pos hcompact]
      obtain ⟨b', e, hread, hcap, hwrite, -⟩ := moveTo_spec (b := b) b.buffer b.length_lt (by
        unfold readableBytes
        omega)
      refine ⟨b', e, hread, ?_, hcap.ge⟩
      rw [hwrite]
      unfold discardableBytes writableBytes readableBytes at *
      omega
    · have hlt : b.grownCapacity size < 2 ^ 63 := hfit.resolve_left hcompact
      have hmod : b.grownCapacity size % 2 ^ 64 = b.grownCapacity size :=
        Nat.mod_eq_of_lt (by omega)
      rw [if_neg hcompact]
      dsimp only
      rw [dif_pos (by rwa [hmod])]
      obtain ⟨b', e, hread, hcap, hwrite, -⟩ := moveTo_spec (b := b)
        (List.replicate (b.grownCapacity size % 2 ^ 64) 0)
        (by rwa [List.length_replicate, hmod]) (by rw [List.length_replicate, hmod]; omega)
      rw [List.length_replicate, hmod] at hcap hwrite
      exact ⟨b', e, hread, by omega, by omega⟩

theorem expandSize_reserveWritableBytes {b' : DynamicBuffer}
    (h : b.reserveWritableBytes size = some b') : b'.expandSize = b.expandSize := by
  have hmove : ∀ {storage hlt}, b.moveTo storage hlt = some b' → b'.expandSize = b.expandSize := by
    intro storage hlt h
    unfold moveTo at h
    split at h <;> cases h
    rfl
  unfold reserveWritableBytes at h
  split at h
  · cases h
    rfl
  · split at h
    · exact hmove h
    · dsimp only at h
      split at h
      · exact hmove h
      · cases h

/-- Growing takes at most what is readable, what is asked for and one step. -/
theorem fits_of_lt (h : b.readableBytes + size + b.expandSize < 2 ^ 63) : b.Fits size := by
  have h₁ := b.read_le
  have h₂ := b.write_le
  by_cases hroom : size ≤ b.discardableBytes + b.writableBytes
  · exact .inl hroom
  · have hmul : b.expandSize *
        ((size - (b.discardableBytes + b.writableBytes)) / b.expandSize + 1) ≤
        size - (b.discardableBytes + b.writableBytes) + b.expandSize := by
      rw [Nat.mul_add, Nat.mul_one]
      exact Nat.add_le_add_right (Nat.mul_div_le _ _) _
    right
    unfold grownCapacity
    generalize b.expandSize * _ = grow at *
    unfold readableBytes discardableBytes writableBytes capacity at *
    omega

/-- Where no size wraps, `reserveWritableBytes` throws exactly if the capacity to grow to is
too large. -/
theorem reserveWritableBytes_eq_none (h : b.readableBytes + size + b.expandSize < 2 ^ 64) :
    b.reserveWritableBytes size = none ↔ ¬ b.Fits size := by
  constructor
  · intro hnone hfit
    obtain ⟨b', e, -⟩ := reserveWritableBytes_spec hfit
    cases hnone.symm.trans e
  · intro hfit
    have h₁ := b.read_le
    have h₂ := b.write_le
    obtain ⟨hroom, hgrown⟩ := not_or.mp hfit
    have hmul : b.expandSize *
        ((size - (b.discardableBytes + b.writableBytes)) / b.expandSize + 1) ≤
        size - (b.discardableBytes + b.writableBytes) + b.expandSize := by
      rw [Nat.mul_add, Nat.mul_one]
      exact Nat.add_le_add_right (Nat.mul_div_le _ _) _
    have hlt : b.grownCapacity size < 2 ^ 64 := by
      unfold grownCapacity
      generalize b.expandSize * _ = grow at *
      unfold readableBytes discardableBytes writableBytes capacity at *
      omega
    unfold reserveWritableBytes
    rw [if_neg (by omega), if_neg (by omega)]
    dsimp only
    rw [dif_neg (by rwa [Nat.mod_eq_of_lt hlt])]

/-- Of bytes copied in, those that are committed are appended to the readable
ones. -/
theorem copyIn_write_prefix (data extra : List UInt8)
    (hle : (data ++ extra).length ≤ b.writableBytes) :
    ∃ b', b.copyIn (data ++ extra) = some b' ∧
      (b'.write data.length).readable = b.readable ++ data ∧
      (b'.write data.length).writableBytes = b.writableBytes - data.length ∧
      (b'.write data.length).expandSize = b.expandSize := by
  have h₁ := b.read_le
  have h₂ := b.write_le
  have hfit : b.writeIndex + (data ++ extra).length ≤ b.buffer.length := by
    unfold writableBytes at hle
    omega
  have hcopy : memcpy b.buffer b.writeIndex (data ++ extra) =
      some (b.buffer.take b.writeIndex ++ (data ++ extra) ++
        b.buffer.drop (b.writeIndex + (data ++ extra).length)) := if_pos hfit
  have hlen := (length_memcpy hcopy).1
  rw [List.length_append] at hfit
  unfold copyIn
  split
  · rename_i hnone
    rw [hcopy] at hnone
    cases hnone
  · rename_i buffer hsome
    obtain rfl := Option.some.inj (hcopy.symm.trans hsome)
    have hmin : min data.length (b.buffer.length - b.writeIndex) = data.length := by omega
    refine ⟨_, rfl, ?_, ?_, rfl⟩
    · unfold write readable readableBytes writableBytes
      dsimp only
      rw [hlen, hmin, List.append_assoc, List.drop_append_of_le_length (by simp; omega),
        List.drop_take, List.append_assoc, ← List.append_assoc,
        List.take_append_of_le_length (by simp; omega), List.take_of_length_le (by simp; omega)]
    · unfold write writableBytes
      dsimp only
      rw [hlen, hmin]
      omega

/-- Bytes copied in and committed are appended to the readable ones. -/
theorem copyIn_write (hle : data.length ≤ b.writableBytes) :
    ∃ b', b.copyIn data = some b' ∧ (b'.write data.length).readable = b.readable ++ data := by
  obtain ⟨b', e, hread, -⟩ := copyIn_write_prefix (b := b) data []
    (by rwa [List.append_nil])
  rw [List.append_nil] at e
  exact ⟨b', e, hread⟩

/-- `fill` appends. -/
theorem fill_spec (hfit : b.Fits size) (hle : data.length ≤ size) :
    ∃ b', b.fill size data = some b' ∧ b'.readable = b.readable ++ data := by
  obtain ⟨b₁, e₁, hread, hroom, -⟩ := reserveWritableBytes_spec hfit
  obtain ⟨b₂, e₂, happend⟩ := copyIn_write (hle.trans hroom)
  refine ⟨b₂.write data.length, ?_, by rw [happend, hread]⟩
  simp [fill, e₁, e₂]

theorem readable_construct {initSize expandSize : Nat}
    (h : construct initSize expandSize = some b) : b.readable = [] := by
  obtain ⟨_, hb⟩ := Option.dite_none_right_eq_some.mp h
  cases hb
  simp [readable, readableBytes]

/-! ## The step by which a buffer grows -/

theorem expandSize_construct {initSize expandSize : Nat}
    (h : construct initSize expandSize = some b) :
    b.expandSize = if expandSize = 0 then 1 else expandSize := by
  obtain ⟨_, hb⟩ := Option.dite_none_right_eq_some.mp h
  cases hb
  rfl

theorem expandSize_read (b : DynamicBuffer) (size : Nat) :
    (b.read size).expandSize = b.expandSize := by
  unfold read
  dsimp only
  split <;> rfl

theorem expandSize_copyIn {b' : DynamicBuffer} (h : b.copyIn data = some b') :
    b'.expandSize = b.expandSize := by
  unfold copyIn at h
  split at h
  · cases h
  · cases h
    rfl

/-! ## Operations that have returned -/

theorem readable_moveTo {storage : List UInt8} {hlt : storage.length < 2 ^ 63} {b' : DynamicBuffer}
    (h : b.moveTo storage hlt = some b') : b'.readable = b.readable := by
  have hfit : b.readableBytes ≤ storage.length := by
    unfold moveTo at h
    split at h
    · cases h
    · rename_i buffer hcopy
      have hlen := (length_memcpy hcopy).2
      rwa [length_readable, Nat.zero_add] at hlen
  obtain ⟨b₁, e, hread, -⟩ := moveTo_spec storage hlt hfit
  obtain rfl := Option.some.inj (h.symm.trans e)
  exact hread

/-- `reserveWritableBytes` keeps the readable bytes, however it comes to return. -/
theorem readable_reserveWritableBytes {b' : DynamicBuffer}
    (h : b.reserveWritableBytes size = some b') : b'.readable = b.readable := by
  unfold reserveWritableBytes at h
  split at h
  · cases h
    rfl
  · split at h
    · exact readable_moveTo h
    · dsimp only at h
      split at h
      · exact readable_moveTo h
      · cases h

theorem readable_copyIn_write {b' : DynamicBuffer} (h : b.copyIn data = some b') :
    (b'.write data.length).readable = b.readable ++ data := by
  have hle : data.length ≤ b.writableBytes := by
    unfold copyIn at h
    split at h
    · cases h
    · rename_i buffer hcopy
      have hlen := (length_memcpy hcopy).2
      unfold writableBytes
      omega
  obtain ⟨b₁, e, hread⟩ := copyIn_write hle
  obtain rfl := Option.some.inj (h.symm.trans e)
  exact hread

theorem readable_writeBytes {b' : DynamicBuffer} (h : b.writeBytes data = some b') :
    b'.readable = b.readable ++ data := by
  unfold writeBytes fill at h
  obtain ⟨b₁, e₁, h⟩ := Option.bind_eq_some_iff.mp h
  obtain ⟨b₂, e₂, h⟩ := Option.bind_eq_some_iff.mp h
  obtain rfl := Option.some.inj h
  rw [readable_copyIn_write e₂, readable_reserveWritableBytes e₁]

theorem readableBytes_eq_zero : b.readableBytes = 0 ↔ b.readable = [] := by
  rw [← length_readable, List.length_eq_zero_iff]

/-- An integer that has been written is read back, as far as it fits. -/
theorem decodeInt_encodeInt (width : Nat) (littleEndian : Bool) (v : Nat) :
    decodeInt littleEndian (encodeInt width littleEndian v) = v % 256 ^ width := by
  have hdigits : ∀ (width v : Nat),
      ((List.range width).map fun i => UInt8.ofNat (v / 256 ^ i)).foldr
        (fun d v => d.toNat + 256 * v) 0 = v % 256 ^ width := by
    intro width
    induction width with
    | zero =>
      intro v
      rw [Nat.pow_zero, Nat.mod_one]
      rfl
    | succ width ih =>
      intro v
      have hrest := ih (v / 256)
      have hshift : (fun i => UInt8.ofNat (v / 256 / 256 ^ i)) =
          (fun i => UInt8.ofNat (v / 256 ^ i)) ∘ Nat.succ := by
        funext i
        rw [Nat.div_div_eq_div_mul, ← Nat.pow_succ']
        rfl
      rw [hshift] at hrest
      rw [List.range_succ_eq_map, List.map_cons, List.map_map, List.foldr_cons, hrest,
        Nat.pow_zero, Nat.div_one, Nat.pow_succ, Nat.mul_comm (256 ^ width) 256, Nat.mod_mul]
      rfl
  unfold decodeInt encodeInt
  cases littleEndian with
  | true => exact hdigits width v
  | false =>
    dsimp only
    rw [if_neg (by decide), if_neg (by decide), List.reverse_reverse]
    exact hdigits width v

end DynamicBuffer

end Brickred
