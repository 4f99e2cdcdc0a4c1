import Mathlib.Order.Bounds.Defs
import Brickred.Buffer.Integers
import Brickred.Lib.BlockFold
import Brickred.Text.StringUtil

/-!
# What the three hashes share (`codec/md5.cc`, `codec/sha1.cc`, `codec/sha256.cc`)

`update` and the padding of `digest` are the same code in the three classes: they
differ in the words of `hash_`, in the function for a block and in the order of the
bytes.
-/

namespace Brickred

namespace Codec

open BlockFold DynamicBuffer

/-- The members of `Md5`, `Sha1` and `Sha256`, with `message_size_` a `size_t`. -/
structure BlockHash (H : Type) where
  hash : H
  workBlock : Bytes
  messageSize : Nat
deriving DecidableEq

namespace BlockHash

variable {H : Type} (process : H → Bytes → H)

/-- The loop over whole blocks, with the bytes it leaves. Each round takes 64 bytes. -/
def processBlocks : Nat → H → Bytes → H × Bytes
  | 0, hash, buffer => (hash, buffer)
  | fuel + 1, hash, buffer =>
    if buffer.length ≥ 64 then
      processBlocks fuel (process hash (buffer.take 64)) (buffer.drop 64)
    else
      (hash, buffer)

/-- The end of `update`: whole blocks, then what is left over. -/
def updateBlocks (s : BlockHash H) (buffer : Bytes) : BlockHash H :=
  let (hash, rest) := processBlocks process (buffer.length / 64) s.hash buffer
  { s with hash, workBlock := rest ++ s.workBlock.drop rest.length }

/-- `update` -/
def update (s : BlockHash H) (buffer : Bytes) : BlockHash H :=
  let wbSize := s.messageSize % 64
  let s := { s with messageSize := (s.messageSize + buffer.length) % 2 ^ 64 }
  if wbSize > 0 then
    let left := 64 - wbSize
    let part := buffer.take (min buffer.length left)
    let workBlock := s.workBlock.take wbSize ++ part ++ s.workBlock.drop (wbSize + part.length)
    let s := { s with workBlock }
    if buffer.length < left then s
    else
      updateBlocks process { s with hash := process s.hash s.workBlock } (buffer.drop left)
  else
    updateBlocks process s buffer

/-- The array `pad`. -/
def pad : Bytes := 0x80 :: List.replicate 63 0

/-- How many bytes of `pad` are hashed. -/
def padSize (wbSize : Nat) : Nat := if wbSize > 55 then 64 - wbSize + 56 else 56 - wbSize

/-- What `digest` does before it stores the words: the padding is hashed, then the
eight bytes of `bit_size`. -/
def finish (littleEndian : Bool) (s : BlockHash H) : BlockHash H :=
  let padLen := storeInt64 (UInt64.ofNat (s.messageSize * 8)) littleEndian
  let wbSize := s.messageSize % 64
  update process (update process s (pad.take (padSize wbSize))) padLen

/-- `digest`, where `hash_` has the words `words`. -/
def digest (words : H → List UInt32) (littleEndian : Bool) (s : BlockHash H) : Bytes :=
  (words (finish process littleEndian s).hash).flatMap fun w => storeInt32 w littleEndian

/-! ## The blocks of the message -/

variable {process} {h₀ : H} {s : BlockHash H} {message buffer : Bytes}

theorem processBlocks_folded {fuel : Nat} {hash : H} (hfuel : buffer.length / 64 ≤ fuel) :
    Folded process 64 hash buffer (processBlocks process fuel hash buffer).1
      (processBlocks process fuel hash buffer).2 := by
  induction fuel generalizing hash buffer with
  | zero => exact .of_short (by omega)
  | succ fuel ih =>
    rw [processBlocks]
    split
    next hlong =>
      have htake : (buffer.take 64).length = 64 := List.length_take_of_le hlong
      have hnone : Folded process 64 hash [] hash [] := .of_short (by decide)
      have hone : Folded process 64 hash (buffer.take 64) (process hash (buffer.take 64)) [] :=
        hnone.append_full htake
      have hrest : (buffer.drop 64).length / 64 ≤ fuel := by
        rw [List.length_drop]
        omega
      have hall := hone.trans (ih hrest)
      rwa [List.take_append_drop] at hall
    next hshort => exact .of_short (Nat.not_le.mp hshort)

/-- The context after `message`. -/
structure After (process : H → Bytes → H) (h₀ : H) (message : Bytes) (s : BlockHash H) : Prop where
  size : s.messageSize = message.length % 2 ^ 64
  block : s.workBlock.length = 64
  folded : Folded process 64 h₀ message s.hash (s.workBlock.take (message.length % 64))

theorem After.wbSize (hs : After process h₀ message s) :
    s.messageSize % 64 = message.length % 64 := by
  rw [hs.size]
  omega

/-- Whole blocks and a rest behind whole blocks. -/
theorem updateBlocks_after {done : Bytes} (hfolded : Folded process 64 h₀ done s.hash [])
    (hsize : s.messageSize = (done ++ buffer).length % 2 ^ 64) (hblock : s.workBlock.length = 64) :
    After process h₀ (done ++ buffer) (updateBlocks process s buffer) := by
  have hrest := hfolded.trans (processBlocks_folded (Nat.le_refl (buffer.length / 64)))
  have hlen := hrest.length_rest
  refine ⟨hsize, ?_, ?_⟩
  · show List.length (_ ++ _) = 64
    rw [List.length_append, List.length_drop, hblock]
    have := hrest.short
    omega
  · show Folded process 64 h₀ _ (processBlocks process (buffer.length / 64) s.hash buffer).1
      (((processBlocks process (buffer.length / 64) s.hash buffer).2 ++ _).take _)
    rw [← hlen, List.take_left]
    exact hrest

/-- `update` goes on with the message. -/
theorem After.update (hs : After process h₀ message s) (buffer : Bytes) :
    After process h₀ (message ++ buffer) (update process s buffer) := by
  obtain ⟨hsize, hblock, hfolded⟩ := hs
  have hwb : s.messageSize % 64 = message.length % 64 := by rw [hsize]; omega
  have hsize' : (s.messageSize + buffer.length) % 2 ^ 64 = (message ++ buffer).length % 2 ^ 64 := by
    rw [hsize, List.length_append]
    omega
  have hpart : (s.workBlock.take (message.length % 64)).length = message.length % 64 :=
    hfolded.length_rest
  simp only [BlockHash.update, hwb]
  split
  next hpos =>
    split
    next hshort =>
      -- the block is not full yet
      have hall : buffer.take (min buffer.length (64 - message.length % 64)) = buffer := by
        rw [Nat.min_eq_left hshort.le, List.take_length]
      have hmod : (message ++ buffer).length % 64 = message.length % 64 + buffer.length := by
        rw [List.length_append]
        omega
      refine ⟨hsize', ?_, ?_⟩
      · show List.length (_ ++ _ ++ _) = 64
        rw [hall, List.length_append, List.length_append, hpart, List.length_drop, hblock]
        omega
      · show Folded process 64 h₀ _ s.hash (List.take _ (_ ++ _ ++ _))
        rw [hall, hmod, List.take_left' (by rw [List.length_append, hpart])]
        exact hfolded.append_short (by rw [List.length_append, hpart]; omega)
    next hlong =>
      -- the block is filled and processed; the others are read where they are
      have hleft : (buffer.take (64 - message.length % 64)).length = 64 - message.length % 64 :=
        List.length_take_of_le (Nat.not_lt.mp hlong)
      have hfull : (s.workBlock.take (message.length % 64) ++
          buffer.take (64 - message.length % 64)).length = 64 := by
        rw [List.length_append, hpart, hleft]
        omega
      have hfill : s.workBlock.take (message.length % 64) ++
          buffer.take (min buffer.length (64 - message.length % 64)) ++
          s.workBlock.drop (message.length % 64 +
            (buffer.take (min buffer.length (64 - message.length % 64))).length) =
          s.workBlock.take (message.length % 64) ++ buffer.take (64 - message.length % 64) := by
        rw [Nat.min_eq_right (Nat.not_lt.mp hlong), hleft,
          List.drop_eq_nil_of_le (by rw [hblock]; omega), List.append_nil]
      have hsplit : message ++ buffer = message ++ buffer.take (64 - message.length % 64) ++
          buffer.drop (64 - message.length % 64) := by
        rw [List.append_assoc, List.take_append_drop]
      rw [hsplit] at hsize' ⊢
      refine updateBlocks_after ?_ hsize' ?_
      · simp only [hfill]
        exact hfolded.append_full hfull
      · simp only [hfill]
        exact hfull
  next hzero =>
    have hzero' : message.length % 64 = 0 := by omega
    rw [hzero', List.take_zero] at hfolded
    exact updateBlocks_after hfolded hsize' hblock

theorem After.foldl (hs : After process h₀ message s) (parts : List Bytes) :
    After process h₀ (message ++ parts.flatten) (parts.foldl (BlockHash.update process) s) := by
  induction parts generalizing message s with
  | nil =>
    rw [List.flatten_nil, List.append_nil]
    exact hs
  | cons part parts ih =>
    rw [List.flatten_cons, ← List.append_assoc]
    exact ih (hs.update part)

/-! ## The padding -/

/-- The bytes read are bytes of `pad`. -/
theorem padSize_le (size : Nat) : padSize (size % 64) ≤ pad.length := by
  have hlen : pad.length = 64 := rfl
  rw [padSize]
  split <;> omega

theorem padSize_eq (size : Nat) :
    ∃ zeros, IsLeast {z | (size + 1 + z) % 64 = 56} zeros ∧
      padSize (size % 64) = zeros + 1 := by
  refine ⟨padSize (size % 64) - 1, ⟨?_, fun z hz => ?_⟩, ?_⟩
  · show (size + 1 + _) % 64 = 56
    rw [padSize]
    split <;> omega
  · have hz' : (size + 1 + z) % 64 = 56 := hz
    rw [padSize]
    split <;> omega
  · rw [padSize]
    split <;> omega

theorem take_pad {zeros : Nat} (hle : zeros + 1 ≤ pad.length) :
    pad.take (zeros + 1) = 0x80 :: List.replicate zeros 0 := by
  have hlen : pad.length = 64 := rfl
  rw [pad, List.take_succ_cons, List.take_replicate, Nat.min_eq_left (by omega)]

/-- What the digest of a message is: the compression function folded over the
blocks of the padded message, and the words of that. -/
def IsDigest (process : H → Bytes → H) (h₀ : H) (words : H → List UInt32) (littleEndian : Bool)
    (message digest : Bytes) : Prop :=
  ∃ zeros blocks, IsLeast {z | (message.length + 1 + z) % 64 = 56} zeros ∧
    Cut 64 blocks (message ++ 0x80 :: List.replicate zeros 0 ++
      encodeInt 8 littleEndian (8 * message.length)) ∧
    digest = (words (blocks.foldl process h₀)).flatMap fun w => encodeInt 4 littleEndian w.toNat

/-- The message has been padded to whole blocks when the words are stored. -/
theorem After.finish (hs : After process h₀ message s) (hlen : message.length < 2 ^ 61)
    (littleEndian : Bool) : ∃ zeros, IsLeast {z | (message.length + 1 + z) % 64 = 56} zeros ∧
      Folded process 64 h₀ (message ++ 0x80 :: List.replicate zeros 0 ++
        encodeInt 8 littleEndian (8 * message.length)) (finish process littleEndian s).hash [] := by
  obtain ⟨zeros, hleast, hpad⟩ := padSize_eq message.length
  have hbits : storeInt64 (UInt64.ofNat (s.messageSize * 8)) littleEndian =
      encodeInt 8 littleEndian (8 * message.length) := by
    rw [storeInt64_eq, UInt64.toNat_ofNat', hs.size, Nat.mod_eq_of_lt (by omega),
      Nat.mod_eq_of_lt (by omega), Nat.mul_comm]
  have hpadded := (hs.update (0x80 :: List.replicate zeros 0)).update
    (encodeInt 8 littleEndian (8 * message.length))
  have hzero : (message ++ 0x80 :: List.replicate zeros 0 ++
      encodeInt 8 littleEndian (8 * message.length)).length % 64 = 0 := by
    have hmod : (message.length + 1 + zeros) % 64 = 56 := hleast.1
    rw [List.length_append, List.length_append, List.length_cons, List.length_replicate,
      length_encodeInt]
    omega
  have hfolded := hpadded.folded
  rw [hzero, List.take_zero] at hfolded
  refine ⟨zeros, hleast, ?_⟩
  rw [BlockHash.finish, hbits, hs.wbSize, hpad, take_pad (hpad ▸ padSize_le message.length)]
  exact hfolded

/-- Whatever the work block held and however the message is cut, its digest comes out. -/
theorem isDigest_digest (words : H → List UInt32) (littleEndian : Bool) {workBlock : Bytes}
    (hblock : workBlock.length = 64) {parts : List Bytes} (hlen : parts.flatten.length < 2 ^ 61) :
    IsDigest process h₀ words littleEndian parts.flatten
      (digest process words littleEndian
        (parts.foldl (BlockHash.update process) ⟨h₀, workBlock, 0⟩)) := by
  have hstart : After process h₀ [] ⟨h₀, workBlock, 0⟩ := ⟨rfl, hblock, .of_short (by decide)⟩
  have hparts := hstart.foldl parts
  rw [List.nil_append] at hparts
  obtain ⟨zeros, hleast, hfolded⟩ := hparts.finish hlen littleEndian
  obtain ⟨blocks, hcut, hhash⟩ := hfolded.cut
  refine ⟨zeros, blocks, hleast, hcut, ?_⟩
  rw [digest, hhash]
  exact List.flatMap_congr fun w _ => storeInt32_eq w littleEndian

end BlockHash

end Codec

end Brickred
