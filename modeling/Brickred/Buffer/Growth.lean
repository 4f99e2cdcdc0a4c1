import Mathlib.Algebra.GroupWithZero.Nat
import Brickred.Buffer.DynamicBuffer

/-!
# Sizes that wrap (`dynamic_buffer.cc`)

`size_t` arithmetic wraps in two places: the capacity that `reserveWritableBytes`
grows to, and the sum of offset and width in the `peek` functions. What happens
there is decided here for every argument, as the three ways of growing: the new
capacity fits, it is more than a vector can have, or it has wrapped.
-/

namespace Brickred

namespace DynamicBuffer

variable {b : DynamicBuffer} {size : Nat}

/-- The capacity that the code computes. -/
def newCapacity (b : DynamicBuffer) (size : Nat) : Nat := b.grownCapacity size % 2 ^ 64

/-- The buffer has to grow: compacting does not make the room. -/
def Grows (b : DynamicBuffer) (size : Nat) : Prop := b.discardableBytes + b.writableBytes < size

/-- The new capacity is more than `std::vector` can have, and the allocation throws. -/
def Throws (b : DynamicBuffer) (size : Nat) : Prop := b.Grows size ∧ 2 ^ 63 ≤ b.newCapacity size

/-- The new capacity has passed `2 ^ 64`, and what is left of it can be allocated. -/
def Wraps (b : DynamicBuffer) (size : Nat) : Prop :=
  b.Grows size ∧ 2 ^ 64 ≤ b.grownCapacity size ∧ b.newCapacity size < 2 ^ 63

instance : Decidable (b.Grows size) := inferInstanceAs (Decidable (_ < _))

instance : Decidable (b.Wraps size) := inferInstanceAs (Decidable (_ ∧ _ ∧ _))

/-- The buffer grows as it should: to what is readable and what is asked for, or not at
all because there is no such storage; a call that returns has made the room; and the
readable bytes are copied to a storage that holds them. -/
structure GrowsSafely (b : DynamicBuffer) (size : Nat) : Prop where
  enough : b.Grows size →
    b.readableBytes + size ≤ b.newCapacity size ∨ 2 ^ 63 ≤ b.newCapacity size
  room : ∀ b', b.reserveWritableBytes size = some b' → size ≤ b'.writableBytes
  copy : b.Grows size → b.newCapacity size < 2 ^ 63 → b.readableBytes ≤ b.newCapacity size

/-- Growing overshoots by one step at most. -/
theorem grownCapacity_le (hgrows : b.Grows size) :
    b.grownCapacity size ≤ b.readableBytes + size + b.expandSize := by
  have h₁ := b.read_le
  have h₂ := b.write_le
  have hmul : b.expandSize *
      ((size - (b.discardableBytes + b.writableBytes)) / b.expandSize + 1) ≤
      size - (b.discardableBytes + b.writableBytes) + b.expandSize := by
    rw [Nat.mul_add, Nat.mul_one]
    exact Nat.add_le_add_right (Nat.mul_div_le _ _) _
  unfold Grows at hgrows
  unfold grownCapacity
  generalize b.expandSize * _ = grow at *
  unfold readableBytes discardableBytes writableBytes capacity at *
  omega

/-- A capacity that has wrapped is too small for what it is for. -/
theorem Wraps.newCapacity_lt (h : b.Wraps size) (hexpand : b.expandSize < 2 ^ 64) :
    b.newCapacity size < b.readableBytes + size := by
  obtain ⟨hgrows, hwrap, -⟩ := h
  have hle := grownCapacity_le hgrows
  have hmod : b.newCapacity size ≤ b.grownCapacity size - 2 ^ 64 := by
    unfold newCapacity
    omega
  omega

/-- One of the three: the capacity fits, the allocation throws, or the sum wraps. -/
theorem fits_or (b : DynamicBuffer) (size : Nat) :
    b.Fits size ∨ b.Throws size ∨ b.Wraps size := by
  by_cases hgrows : b.Grows size
  · by_cases hthrows : 2 ^ 63 ≤ b.newCapacity size
    · exact .inr (.inl ⟨hgrows, hthrows⟩)
    · by_cases hwrap : 2 ^ 64 ≤ b.grownCapacity size
      · exact .inr (.inr ⟨hgrows, hwrap, Nat.not_le.mp hthrows⟩)
      · refine .inl (.inr ?_)
        unfold newCapacity at hthrows
        omega
  · exact .inl (.inl (Nat.not_lt.mp hgrows))

theorem Throws.not_wraps (h : b.Throws size) : ¬ b.Wraps size := fun hwraps =>
  Nat.not_le.mpr hwraps.2.2 h.2

/-- A buffer that grows takes the last branch. -/
theorem reserveWritableBytes_of_grows (h : b.Grows size) :
    b.reserveWritableBytes size =
      if hlt : b.newCapacity size < 2 ^ 63 then
        b.moveTo (List.replicate (b.newCapacity size) 0) (by rwa [List.length_replicate])
      else none := by
  unfold Grows at h
  unfold reserveWritableBytes
  rw [if_neg (by omega), if_neg (by omega)]
  rfl

theorem Throws.reserveWritableBytes (h : b.Throws size) : b.reserveWritableBytes size = none := by
  rw [reserveWritableBytes_of_grows h.1, dif_neg (Nat.not_lt.mpr h.2)]

/-- A copy that returns has fitted its storage, and leaves the rest of it to write. -/
theorem moveTo_some {storage : List UInt8} {hlt : storage.length < 2 ^ 63} {b' : DynamicBuffer}
    (h : b.moveTo storage hlt = some b') :
    b.readableBytes ≤ storage.length ∧ b'.writableBytes = storage.length - b.readableBytes := by
  have hfit : b.readableBytes ≤ storage.length := by
    unfold moveTo at h
    split at h
    · cases h
    · rename_i buffer hcopy
      have hlen := (length_memcpy hcopy).2
      rwa [length_readable, Nat.zero_add] at hlen
  obtain ⟨b₁, e, -, -, hwritable, -⟩ := moveTo_spec storage hlt hfit
  obtain rfl := Option.some.inj (h.symm.trans e)
  exact ⟨hfit, hwritable⟩

/-- Where the capacity has wrapped, a call that returns has not made the room. -/
theorem Wraps.writableBytes_lt {b' : DynamicBuffer} (h : b.Wraps size)
    (hexpand : b.expandSize < 2 ^ 64) (hb' : b.reserveWritableBytes size = some b') :
    b'.writableBytes < size := by
  have hlt := h.newCapacity_lt hexpand
  rw [reserveWritableBytes_of_grows h.1, dif_pos h.2.2] at hb'
  obtain ⟨hfit, hwritable⟩ := moveTo_some hb'
  rw [List.length_replicate] at hfit hwritable
  omega

/-- Nothing is written to a buffer whose capacity has wrapped but outside its storage. -/
theorem Wraps.fill (h : b.Wraps size) (hexpand : b.expandSize < 2 ^ 64) {data : List UInt8}
    (hdata : data.length = size) : b.fill size data = none := by
  unfold DynamicBuffer.fill
  cases e : b.reserveWritableBytes size with
  | none => rfl
  | some b₁ =>
    have hlt := h.writableBytes_lt hexpand e
    have hcopy : memcpy b₁.buffer b₁.writeIndex data = none := by
      refine if_neg ?_
      unfold writableBytes at hlt
      have := b₁.write_le
      omega
    have hnone : b₁.copyIn data = none := by
      unfold copyIn
      split
      · rfl
      · rename_i hsome
        rw [hcopy] at hsome
        cases hsome
    simp [hnone]

/-- The growth is safe for every state, expand size and request, unless the capacity wraps
and what is left of it can be allocated. -/
theorem growsSafely_iff (hexpand : b.expandSize < 2 ^ 64) (size : Nat) :
    b.GrowsSafely size ↔ ¬ b.Wraps size := by
  constructor
  · intro hsafe hwraps
    have hlt := hwraps.newCapacity_lt hexpand
    rcases hsafe.enough hwraps.1 with henough | hthrows
    · exact Nat.not_le.mpr hlt henough
    · exact Nat.not_le.mpr hwraps.2.2 hthrows
  · intro hwraps
    rcases b.fits_or size with hfits | hthrows | h
    · obtain ⟨b₁, e, -, hroom, -⟩ := reserveWritableBytes_spec hfits
      have henough : b.Grows size → b.readableBytes + size ≤ b.newCapacity size := by
        intro hgrows
        have hge := (b.grownCapacity_ge size).1
        have hlt : b.grownCapacity size < 2 ^ 63 := hfits.resolve_left (Nat.not_le.mpr hgrows)
        unfold newCapacity
        omega
      exact
        { enough := fun hgrows => .inl (henough hgrows)
          room := fun b' hb' => Option.some.inj (e.symm.trans hb') ▸ hroom
          copy := fun hgrows _ => le_trans (Nat.le_add_right _ _) (henough hgrows) }
    · exact
        { enough := fun _ => .inr hthrows.2
          room := fun b' hb' => by
            rw [hthrows.reserveWritableBytes] at hb'
            cases hb'
          copy := fun _ hlt => absurd hthrows.2 (Nat.not_le.mpr hlt) }
    · exact absurd h hwraps

/-- A buffer that grows by single bytes grows to any request. -/
theorem growsSafely_iff_one :
    ∃ b, construct 1 1 = some b ∧ b.GrowsSafely 5 := by
  refine ⟨(construct 1 1).get (by decide), (Option.some_get _).symm, ?_⟩
  exact (growsSafely_iff (by decide) 5).mpr (by decide)

/-- A buffer of the default sizes, asked for `SIZE_MAX` bytes, gets a storage of none. -/
theorem not_growsSafely :
    ∃ b, construct 1024 1024 = some b ∧ b.newCapacity (2 ^ 64 - 1) = 0 ∧
      ¬ b.GrowsSafely (2 ^ 64 - 1) := by
  refine ⟨(construct 1024 1024).get (by decide +kernel), (Option.some_get _).symm,
    by decide +kernel, fun h => ?_⟩
  have henough := h.enough (by decide +kernel)
  revert henough
  decide +kernel

/-! ## The capacity over several requests -/

/-- The capacity that holds `need` bytes, for a buffer that grows in steps. -/
def grownTo (step cap need : Nat) : Nat :=
  if need ≤ cap then cap else cap + step * ((need - cap) / step + 1)

/-- The capacity after requests for room, of which each is followed by the commitment of as
many bytes as stand beside it. -/
def capacityAfter (step cap used : Nat) : List (Nat × Nat) → Nat
  | [] => cap
  | (size, written) :: requests =>
    capacityAfter step (grownTo step cap (used + size)) (used + written) requests

theorem le_grownTo (step cap need : Nat) : cap ≤ grownTo step cap need := by
  unfold grownTo
  split
  · exact le_refl cap
  · exact Nat.le_add_right cap _

theorem le_capacityAfter (step : Nat) (requests : List (Nat × Nat)) (cap used : Nat) :
    cap ≤ capacityAfter step cap used requests := by
  induction requests generalizing cap used with
  | nil => exact le_refl cap
  | cons request requests ih => exact (le_grownTo step cap _).trans (ih _ _)

theorem capacityAfter_append (step : Nat) (xs ys : List (Nat × Nat)) (cap used : Nat) :
    capacityAfter step cap used (xs ++ ys) =
      capacityAfter step (capacityAfter step cap used xs) (used + (xs.map Prod.snd).sum) ys := by
  induction xs generalizing cap used with
  | nil => rfl
  | cons x xs ih =>
    rw [List.map_cons, List.sum_cons, ← Nat.add_assoc]
    exact ih _ _

theorem readableBytes_add_writableBytes_le (b : DynamicBuffer) :
    b.readableBytes + b.writableBytes ≤ b.capacity := by
  have h₁ := b.read_le
  have h₂ := b.write_le
  unfold readableBytes writableBytes capacity
  omega

/-- A request that a vector can meet is met, and the buffer is as large as it says. -/
theorem reserveWritableBytes_grownTo
    (h : grownTo b.expandSize b.capacity (b.readableBytes + size) < 2 ^ 63) :
    ∃ b', b.reserveWritableBytes size = some b' ∧ b'.readable = b.readable ∧
      size ≤ b'.writableBytes ∧
      b'.capacity = grownTo b.expandSize b.capacity (b.readableBytes + size) ∧
      b'.expandSize = b.expandSize := by
  have h₁ := b.read_le
  have h₂ := b.write_le
  by_cases hgrows : b.Grows size
  · have hneed : ¬ b.readableBytes + size ≤ b.capacity := by
      unfold Grows discardableBytes writableBytes at hgrows
      unfold readableBytes capacity
      omega
    have hcap : b.grownCapacity size =
        grownTo b.expandSize b.capacity (b.readableBytes + size) := by
      have hfree : size - (b.discardableBytes + b.writableBytes) =
          b.readableBytes + size - b.capacity := by
        unfold discardableBytes writableBytes readableBytes capacity
        omega
      rw [grownTo, if_neg hneed, grownCapacity, hfree]
    have hfits : b.grownCapacity size < 2 ^ 63 := hcap ▸ h
    have hge := (b.grownCapacity_ge size).1
    have hnew : b.newCapacity size = b.grownCapacity size := by
      unfold newCapacity
      omega
    obtain ⟨b', e, hread, hcapacity, hwritable, hexpand⟩ := moveTo_spec (b := b)
      (List.replicate (b.newCapacity size) 0) (by rw [List.length_replicate]; omega)
      (by rw [List.length_replicate]; omega)
    rw [List.length_replicate, hnew] at hcapacity hwritable
    refine ⟨b', ?_, hread, by omega, hcapacity.trans hcap, hexpand⟩
    rw [reserveWritableBytes_of_grows hgrows, dif_pos (by omega)]
    exact e
  · have hneed : b.readableBytes + size ≤ b.capacity := by
      unfold Grows discardableBytes writableBytes at hgrows
      unfold readableBytes capacity
      omega
    rw [grownTo, if_pos hneed]
    unfold reserveWritableBytes
    by_cases hroom : b.writableBytes ≥ size
    · exact ⟨b, if_pos hroom, rfl, hroom, rfl, rfl⟩
    · obtain ⟨b', e, hread, hcapacity, hwritable, hexpand⟩ := moveTo_spec (b := b) b.buffer
        b.length_lt (by unfold capacity at hneed; omega)
      refine ⟨b', ?_, hread, by unfold capacity at hneed; omega, hcapacity, hexpand⟩
      rw [if_neg hroom, if_pos (Nat.not_lt.mp hgrows)]
      exact e

theorem capacity_copyIn_write {b' : DynamicBuffer} {data : List UInt8} {n : Nat}
    (h : b.copyIn data = some b') : (b'.write n).capacity = b.capacity := by
  unfold copyIn at h
  split at h
  · cases h
  · rename_i buffer hcopy
    cases h
    exact (length_memcpy hcopy).1

/-! ## Offsets -/

/-- A `peek` returns true exactly if the bytes are there, and reads no others. -/
def PeeksSafely (b : DynamicBuffer) (width offset : Nat) : Prop :=
  ∀ littleEndian, ∃ r, b.peekInt width offset littleEndian = some r ∧
    (r.isSome ↔ offset + width ≤ b.readableBytes)

/-- For every state and offset a `peek` is safe, unless offset and width pass `2 ^ 64` by no
more than is readable. -/
theorem peeksSafely_iff {width offset : Nat} (hwidth : width ∈ [1, 2, 4, 8])
    (hoffset : offset < 2 ^ 64) :
    b.PeeksSafely width offset ↔
      ¬ (2 ^ 64 ≤ offset + width ∧ offset + width - 2 ^ 64 ≤ b.readableBytes) := by
  have hlt : b.readableBytes < 2 ^ 63 :=
    ((Nat.sub_le _ _).trans b.write_le).trans_lt b.length_lt
  have hwidth : 0 < width ∧ width ≤ 8 := by
    simp only [List.mem_cons, List.not_mem_nil, or_false] at hwidth
    omega
  constructor
  · rintro hsafe ⟨hwrap, hle⟩
    obtain ⟨r, hr, -⟩ := hsafe true
    have hmod : (offset + width) % 2 ^ 64 = offset + width - 2 ^ 64 := by omega
    unfold peekInt at hr
    rw [hmod, if_neg (Nat.not_lt.mpr hle), slice,
      if_neg (by rw [length_readable]; omega)] at hr
    cases hr
  · intro hwrap littleEndian
    unfold peekInt
    by_cases hshort : b.readableBytes < (offset + width) % 2 ^ 64
    · rw [if_pos hshort]
      refine ⟨none, rfl, ?_⟩
      simp only [Option.isSome_none, Bool.false_eq_true, false_iff]
      omega
    · have hle : offset + width ≤ b.readableBytes := by omega
      rw [if_neg hshort, slice, if_pos (by rwa [length_readable])]
      exact ⟨_, rfl, by simp [hle]⟩

/-- Two bytes can be peeked at behind the first of three. -/
theorem peeksSafely_iff_offset :
    ∃ b b', construct 4 4 = some b ∧ b.writeBytes [1, 2, 3] = some b' ∧ b'.PeeksSafely 2 1 ∧
      b'.peekInt16 1 false = some (some 0x0203) := by
  have hpeek : ((((construct 4 4).get (by decide)).writeBytes [1, 2, 3]).get
      (by decide)).peekInt16 1 false = some (some 0x0203) := by decide
  refine ⟨_, _, (Option.some_get _).symm, (Option.some_get _).symm, ?_, hpeek⟩
  exact (peeksSafely_iff (by decide) (by decide)).mpr (by decide)

/-- At the last offset the sum is zero, and the byte in front of an empty buffer is read. -/
theorem not_peeksSafely :
    ∃ b, construct 1024 1024 = some b ∧ b.peekInt8 (2 ^ 64 - 1) = none ∧
      ¬ b.PeeksSafely 1 (2 ^ 64 - 1) := by
  have hnone : ((construct 1024 1024).get (by decide +kernel)).peekInt8 (2 ^ 64 - 1) = none := by
    decide +kernel
  refine ⟨_, (Option.some_get _).symm, hnone, fun h => ?_⟩
  obtain ⟨r, hr, -⟩ := h false
  exact absurd (hnone.symm.trans hr) nofun

end DynamicBuffer

end Brickred
