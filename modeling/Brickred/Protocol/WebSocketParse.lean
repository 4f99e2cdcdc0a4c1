import Brickred.Protocol.WebSocketProtocol

/-!
# Where `readFrame` reads

No byte that `readFrame` looks at is outside the buffer, `left_bytes` counts the
bytes behind `p`, and what is read does not depend on the bytes behind the frame.
-/

namespace Brickred

namespace WebSocketProtocol

variable {p : WebSocketProtocol} {buffer x : Bytes}

theorem checkedSub_eq {a b : Nat} (h : b ≤ a) : checkedSub a b = some (a - b) := if_pos h

/-- `peekInt` at an offset that cannot wrap. -/
theorem peekInt_eq {width offset : Nat} (h : offset + width < 2 ^ 64) :
    Queue.peekInt buffer width offset false =
      if buffer.length < offset + width then some none
      else some (some (DynamicBuffer.decodeInt false ((buffer.drop offset).take width))) := by
  unfold Queue.peekInt
  rw [Nat.mod_eq_of_lt h]
  split
  · rfl
  · rename_i hlen
    rw [slice, if_pos (by omega)]
    rfl

@[simp] theorem length_mask (key data : Bytes) : (mask key data).length = data.length := by
  rw [mask, List.length_mapIdx]

@[simp] theorem length_maskWith (key : Option Bytes) (data : Bytes) :
    (maskWith key data).length = data.length := by
  cases key with
  | none => rfl
  | some key => exact length_mask key data

/-- A part of a frame that has been read. -/
def Part.map {α β : Type} (f : α → β) : Part α → Part β
  | .more => .more
  | .failed => .failed
  | .ready a => .ready (f a)

/-- Reading a part of a frame does not leave the buffer, and finds the same with more
input behind it; `f` is what more input does to the count of bytes left. -/
structure Reads {α : Type} (Ok : α → Prop) (r r' : Option (Part α)) (f : α → α) : Prop where
  isSome : ∃ part, r = some part ∧ (∀ a, part = .ready a → Ok a)
  append : ∀ part, r = some part → part ≠ .more → r' = some (part.map f)

theorem Reads.more {α : Type} {Ok : α → Prop} {r' : Option (Part α)} {f : α → α} :
    Reads Ok (some .more) r' f where
  isSome := ⟨.more, rfl, nofun⟩
  append := by
    rintro part h hne
    cases h
    exact absurd rfl hne

theorem Reads.failed {α : Type} {Ok : α → Prop} {f : α → α} :
    Reads Ok (some .failed) (some .failed) f where
  isSome := ⟨.failed, rfl, nofun⟩
  append := by
    rintro part h -
    cases h
    rfl

theorem Reads.ready {α : Type} {Ok : α → Prop} {f : α → α} {a : α} (h : Ok a) :
    Reads Ok (some (.ready a)) (some (.ready (f a))) f where
  isSome := by
    refine ⟨.ready a, rfl, fun a' h' => ?_⟩
    cases h'
    exact h
  append := by
    rintro part h -
    cases h
    rfl

/-- A check on what has been read. -/
theorem Reads.check {α : Type} {Ok : α → Prop} {r r' : Option (Part α)} {f : α → α} {c : Prop}
    {d d' : Decidable c} (h : ¬ c → Reads Ok r r' f) :
    Reads Ok (@ite _ c d (some .failed) r) (@ite _ c d' (some .failed) r') f := by
  by_cases hc : c
  · rw [if_pos hc, if_pos hc]
    exact .failed
  · rw [if_neg hc, if_neg hc]
    exact h hc

/-- One part after another. -/
theorem Reads.andThen {α β : Type} {Ok : α → Prop} {Ok' : β → Prop} {r r' : Option (Part α)}
    {f : α → α} {g : β → β} {k k' : α → Option (Part β)} (h : Reads Ok r r' f)
    (hk : ∀ a, Ok a → Reads Ok' (k a) (k' (f a)) g) :
    Reads Ok' (Part.andThen r k) (Part.andThen r' k') g := by
  obtain ⟨part, rfl, hok⟩ := h.isSome
  have happend := h.append part rfl
  cases part with
  | more => exact .more
  | failed =>
    rw [happend nofun]
    exact .failed
  | ready a =>
    rw [happend nofun]
    exact hk a (hok a rfl)

/-- `p - b` and `left_bytes` add up to the bytes there are. -/
def LeftOk {α : Type} (buffer : Bytes) (a : α × Nat × Nat) : Prop :=
  2 ≤ a.2.1 ∧ a.2.1 + a.2.2 = buffer.length

/-- More bytes are left. -/
def moreLeft {α : Type} (x : Bytes) (a : α × Nat × Nat) : α × Nat × Nat :=
  (a.1, a.2.1, a.2.2 + x.length)

theorem readLength_reads (payloadLength : Nat) (h : 2 ≤ buffer.length) (x : Bytes) :
    Reads (fun a => LeftOk buffer a ∧ (payloadLength < 126 → a.1 = payloadLength))
      (readLength buffer payloadLength) (readLength (buffer ++ x) payloadLength) (moreLeft x) := by
  have hlen : (buffer ++ x).length = buffer.length + x.length := List.length_append
  have hwide : ∀ width, 2 + width < 2 ^ 64 → 2 + width ≤ buffer.length →
      Queue.peekInt (buffer ++ x) width 2 false = Queue.peekInt buffer width 2 false := by
    intro width hlt hle
    rw [peekInt_eq hlt, peekInt_eq hlt, if_neg (by omega), if_neg (by omega), List.drop_append_of_le_length (by omega),
      List.take_append_of_le_length (by rw [List.length_drop]; omega)]
  unfold readLength
  rw [checkedSub_eq h, checkedSub_eq (by omega : 2 ≤ (buffer ++ x).length)]
  simp only [Option.bind_eq_bind, Option.bind_some]
  split
  · by_cases hshort : buffer.length < 2 + 2
    · rw [peekInt_eq (by decide), if_pos hshort]
      exact .more
    · rw [hwide 2 (by decide) (by omega), peekInt_eq (by decide), if_neg hshort,
        checkedSub_eq (by omega), checkedSub_eq (by omega)]
      simp only [Option.bind_some]
      split
      · exact .failed
      · have hleft : (buffer ++ x).length - 2 - 2 = buffer.length - 2 - 2 + x.length := by omega
        rw [hleft]
        refine .ready (f := moreLeft x) (a := (_, 4, buffer.length - 2 - 2))
          ⟨⟨Nat.le_add_left 2 _, ?_⟩, fun hlt => by omega⟩
        show 4 + (buffer.length - 2 - 2) = buffer.length
        omega
  · split
    · by_cases hshort : buffer.length < 2 + 8
      · rw [peekInt_eq (by decide), if_pos hshort]
        exact .more
      · rw [hwide 8 (by decide) (by omega), peekInt_eq (by decide), if_neg hshort,
          checkedSub_eq (by omega), checkedSub_eq (by omega)]
        simp only [Option.bind_some]
        split
        · exact .failed
        · split
          · exact .failed
          · have hleft : (buffer ++ x).length - 2 - 8 = buffer.length - 2 - 8 + x.length := by omega
            rw [hleft]
            refine .ready (f := moreLeft x) (a := (_, 10, buffer.length - 2 - 8))
              ⟨⟨Nat.le_add_left 2 _, ?_⟩, fun hlt => by omega⟩
            show 10 + (buffer.length - 2 - 8) = buffer.length
            omega
    · have hleft : (buffer ++ x).length - 2 = buffer.length - 2 + x.length := by omega
      rw [hleft]
      refine .ready (f := moreLeft x) (a := (_, 2, buffer.length - 2)) ⟨⟨Nat.le_add_left 2 _, ?_⟩, fun _ => rfl⟩
      show 2 + (buffer.length - 2) = buffer.length
      omega

theorem readMaskKey_reads (p : WebSocketProtocol) (masked : Bool) {pos left : Nat} (hpos : 2 ≤ pos)
    (hleft : pos + left = buffer.length) (x : Bytes) :
    Reads (LeftOk buffer) (p.readMaskKey buffer masked pos left)
      (p.readMaskKey (buffer ++ x) masked pos (left + x.length)) (moreLeft x) := by
  unfold readMaskKey
  split
  · split
    · exact .failed
    · by_cases hshort : left < 4
      · rw [if_pos hshort]
        exact .more
      · have hkey : ((buffer ++ x).drop pos).take 4 = (buffer.drop pos).take 4 := by
          rw [List.drop_append_of_le_length (by omega),
            List.take_append_of_le_length (by rw [List.length_drop]; omega)]
        rw [if_neg hshort, if_neg (by omega), slice, slice, if_pos (by omega),
          if_pos (by rw [List.length_append]; omega), hkey, checkedSub_eq (by omega),
          checkedSub_eq (by omega)]
        have hmore : left + x.length - 4 = left - 4 + x.length := by omega
        simp only [Option.bind_eq_bind, Option.bind_some]
        rw [hmore]
        refine .ready (f := moreLeft x) (a := (_, pos + 4, left - 4)) ⟨?_, ?_⟩
        · show 2 ≤ pos + 4
          omega
        · show pos + 4 + (left - 4) = buffer.length
          omega
  · split
    · exact .failed
    · exact .ready (f := moreLeft x) (a := (_, pos, left)) ⟨hpos, hleft⟩

theorem readPayload_reads (key : Option Bytes) (payloadLength : Nat) {pos left : Nat} (hpos : 2 ≤ pos)
    (hleft : pos + left = buffer.length) (x : Bytes) :
    Reads (fun a => 2 ≤ a.2 ∧ a.2 ≤ buffer.length ∧ a.1.length = payloadLength)
      (readPayload buffer key payloadLength pos left)
      (readPayload (buffer ++ x) key payloadLength pos (left + x.length)) id := by
  unfold readPayload
  split
  · by_cases hshort : left < payloadLength
    · rw [if_pos hshort]
      exact .more
    · have hdata : ((buffer ++ x).drop pos).take payloadLength =
          (buffer.drop pos).take payloadLength := by
        rw [List.drop_append_of_le_length (by omega),
          List.take_append_of_le_length (by rw [List.length_drop]; omega)]
      rw [if_neg hshort, if_neg (by omega), slice, slice, if_pos (by omega),
        if_pos (by rw [List.length_append]; omega), hdata, checkedSub_eq (by omega),
        checkedSub_eq (by omega)]
      refine .ready (f := id) ⟨by dsimp only; omega, by dsimp only; omega, ?_⟩
      have hlen : ((buffer.drop pos).take payloadLength).length = payloadLength := by
        rw [List.length_take, List.length_drop]
        omega
      show (maskWith key _).length = payloadLength
      rw [length_maskWith, hlen]
  · rename_i hzero
    exact .ready (f := id) ⟨hpos, by dsimp only; omega, by dsimp only [List.length_nil]; omega⟩

/-- What `readFrame` has read is inside the buffer, is fit to be copied, and is the
same when more follows. -/
theorem parseFrame_reads (p : WebSocketProtocol) (buffer x : Bytes) :
    Reads
      (fun f => 2 ≤ f.size ∧ f.size ≤ buffer.length ∧ f.opcode < 16 ∧
        (8 ≤ f.opcode → f.fin = true ∧ f.payload.length ≤ 125) ∧
        (f.opcode < 8 → p.message.length + f.payload.length ≤ p.messageSizeMax))
      (p.parseFrame buffer) (p.parseFrame (buffer ++ x)) id := by
  unfold parseFrame
  by_cases hshort : buffer.length < 2
  · rw [if_pos hshort]
    exact .more
  have hget : ∀ i < 2, (buffer ++ x)[i]? = buffer[i]? := fun i hi =>
    List.getElem?_append_left (by omega)
  rw [if_neg hshort, if_neg (by rw [List.length_append]; omega), hget 0 (by decide),
    hget 1 (by decide), List.getElem?_eq_getElem (by omega), List.getElem?_eq_getElem (by omega)]
  generalize buffer[0] = b₀
  generalize buffer[1] = b₁
  simp only [Option.bind_eq_bind, Option.bind_some]
  refine .check fun _ => .check fun hfin => .check fun hcontrol => ?_
  have hnibble : (b₀ &&& 0x0f).toNat < 16 := by
    rw [UInt8.toNat_and]
    exact Nat.lt_of_le_of_lt Nat.and_le_right (by decide)
  refine (readLength_reads (b₁ &&& 0x7f).toNat (by omega) x).andThen ?_
  rintro ⟨payloadLength, pos, left⟩ ⟨⟨hpos, hleft⟩, hsmall⟩
  dsimp only [moreLeft] at hpos hleft hsmall ⊢
  refine .check fun hmax => ?_
  refine (readMaskKey_reads p _ hpos hleft x).andThen ?_
  rintro ⟨key, pos', left'⟩ ⟨hpos', hleft'⟩
  refine (readPayload_reads key payloadLength hpos' hleft' x).andThen ?_
  rintro ⟨payload, size⟩ ⟨hsize, hle, hlen⟩
  refine .ready (f := id) ⟨hsize, hle, hnibble, fun hge => ?_, fun hlt => ?_⟩
  · simp only [ge_iff_le, hge, decide_true, true_and, Bool.not_eq_false, Nat.not_le] at hfin hcontrol
    refine ⟨hfin, ?_⟩
    show payload.length ≤ 125
    rw [hlen, hsmall hcontrol]
    omega
  · have hdata : decide ((b₀ &&& 0x0f).toNat ≥ 8) = false := decide_eq_false (by simpa using hlt)
    simp only [hdata, true_and, Nat.not_lt, gt_iff_lt] at hmax
    show p.message.length + payload.length ≤ _
    rw [hlen]
    exact hmax

end WebSocketProtocol

end Brickred
