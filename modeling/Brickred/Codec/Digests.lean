import Brickred.Codec.Md5
import Brickred.Codec.Sha1
import Brickred.Codec.Sha256

/-!
# The digests of the three hashes

The context of `Sha1` is that of `BlockHash` in other words. So the three classes
compute the same function of the message, each with its own block function, whichever
way the message is cut.
-/

namespace Brickred

namespace Codec

open DynamicBuffer

namespace Sha1

def words (h : Sha1Hash) : List UInt32 := [h.h₀, h.h₁, h.h₂, h.h₃, h.h₄]

/-- The hash `reset` starts from. -/
def initialHash : Sha1Hash := (reset []).hash

def context (s : Sha1) : BlockHash Sha1Hash := ⟨s.hash, s.workBlock, s.messageSize⟩

theorem processBlocks_eq (fuel : Nat) (hash : Sha1Hash) (buffer : Bytes) :
    processBlocks fuel hash buffer = BlockHash.processBlocks processBlock fuel hash buffer := by
  induction fuel generalizing hash buffer with
  | zero => rfl
  | succ fuel ih =>
    rw [processBlocks, BlockHash.processBlocks]
    split
    · exact ih _ _
    · rfl

theorem context_updateBlocks (s : Sha1) (buffer : Bytes) :
    (s.updateBlocks buffer).context = BlockHash.updateBlocks processBlock s.context buffer := by
  rw [updateBlocks, processBlocks_eq]
  rfl

theorem context_update (s : Sha1) (buffer : Bytes) :
    (s.update buffer).context = BlockHash.update processBlock s.context buffer := by
  simp only [update, BlockHash.update]
  split
  next hpos =>
    rw [if_pos (c := s.context.messageSize % 64 > 0) hpos]
    split
    next hshort =>
      rw [if_pos (c := buffer.length < 64 - s.context.messageSize % 64) hshort]
      rfl
    next hlong =>
      rw [if_neg (c := buffer.length < 64 - s.context.messageSize % 64) hlong, context_updateBlocks]
      rfl
  next hzero =>
    rw [if_neg (c := s.context.messageSize % 64 > 0) hzero, context_updateBlocks]
    rfl

theorem context_foldl (s : Sha1) (parts : List Bytes) :
    (parts.foldl update s).context = parts.foldl (BlockHash.update processBlock) s.context := by
  induction parts generalizing s with
  | nil => rfl
  | cons part parts ih =>
    rw [List.foldl_cons, List.foldl_cons, ih, context_update]

/-- The bytes of `pad_len`. -/
theorem padLen_eq {n : Nat} (hn : n < 2 ^ 64) :
    ([56, 48, 40, 32, 24, 16, 8, 0].map fun i => UInt8.ofNat (n >>> i)) =
      storeInt64 (UInt64.ofNat n) false := by
  rw [storeInt64_eq, UInt64.toNat_ofNat', Nat.mod_eq_of_lt hn]
  simp only [List.map, Nat.shiftRight_eq_div_pow]
  rfl

theorem digest_eq (s : Sha1) :
    s.digest = BlockHash.digest processBlock words false s.context := by
  have hpadded (a b : Bytes) : ((s.update a).update b).hash =
      (BlockHash.update processBlock (BlockHash.update processBlock s.context a) b).hash := by
    rw [← context_update, ← context_update]
    rfl
  have hbits : UInt64.ofNat (s.messageSize * 8 % 2 ^ 64) = UInt64.ofNat (s.messageSize * 8) := by
    apply UInt64.toNat_inj.mp
    rw [UInt64.toNat_ofNat', UInt64.toNat_ofNat', Nat.mod_mod]
  simp only [digest, BlockHash.digest, BlockHash.finish]
  rw [padLen_eq (Nat.mod_lt _ (by decide)), hpadded, hbits]
  simp only [words, List.flatMap_cons, List.flatMap_nil, List.append_nil, List.append_assoc]
  rfl

end Sha1

open BlockHash

/-- The digest of a message does not depend on how the message is cut into calls of
`update`: it is the fold of the block function over the blocks of the padded message.
`digest` asks for no more of `pad` than there is. -/
theorem isDigest_update {parts : List Bytes} (hlen : parts.flatten.length < 2 ^ 61)
    {workBlock : Bytes} (hblock : workBlock.length = 64) :
    IsDigest Md5.processBlock Md5.initialHash Md5Hash.words true parts.flatten
        (Md5.digest (parts.foldl Md5.update (Md5.reset workBlock))) ∧
      IsDigest Sha1.processBlock Sha1.initialHash Sha1.words false parts.flatten
        (Sha1.digest (parts.foldl Sha1.update (Sha1.reset workBlock))) ∧
      IsDigest Sha256.processBlock Sha256.initialHash Sha256Hash.words false parts.flatten
        (Sha256.digest (parts.foldl Sha256.update (Sha256.reset workBlock))) ∧
      ∀ size, padSize (size % 64) ≤ pad.length := by
  refine ⟨isDigest_digest _ _ hblock hlen, ?_, isDigest_digest _ _ hblock hlen, padSize_le⟩
  rw [Sha1.digest_eq, Sha1.context_foldl]
  exact isDigest_digest _ _ hblock hlen

/-- A message in three pieces, one of them empty and one across a block's end. -/
theorem isDigest_update_pieces :
    IsDigest Md5.processBlock Md5.initialHash Md5Hash.words true (List.replicate 70 0x61)
        (Md5.digest ([List.replicate 60 0x61, [], List.replicate 10 0x61].foldl Md5.update
          (Md5.reset (List.replicate 64 0)))) ∧
      IsDigest Sha1.processBlock Sha1.initialHash Sha1.words false (List.replicate 70 0x61)
        (Sha1.digest ([List.replicate 60 0x61, [], List.replicate 10 0x61].foldl Sha1.update
          (Sha1.reset (List.replicate 64 0)))) ∧
      IsDigest Sha256.processBlock Sha256.initialHash Sha256Hash.words false
        (List.replicate 70 0x61)
        (Sha256.digest ([List.replicate 60 0x61, [], List.replicate 10 0x61].foldl Sha256.update
          (Sha256.reset (List.replicate 64 0)))) ∧
      ∀ size, padSize (size % 64) ≤ pad.length :=
  @isDigest_update [List.replicate 60 0x61, [], List.replicate 10 0x61] (by decide)
    (List.replicate 64 0) (List.length_replicate ..)

end Codec

end Brickred
