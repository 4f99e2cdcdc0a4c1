import Brickred.Text.StringUtil

/-!
# SHA-1 (`codec/sha1.cc`)
-/

namespace Brickred

namespace Codec

/-- The five words of `hash_`. -/
structure Sha1Hash where
  h₀ : UInt32
  h₁ : UInt32
  h₂ : UInt32
  h₃ : UInt32
  h₄ : UInt32
deriving DecidableEq

/-- `Sha1`, with `message_size_` a `size_t`. -/
structure Sha1 where
  hash : Sha1Hash
  workBlock : Bytes
  messageSize : Nat
deriving DecidableEq

namespace Sha1

/-- `Sha1::reset`. The work block is not initialised; no byte of it is read before
it is written. -/
def reset (workBlock : Bytes) : Sha1 where
  hash := ⟨0x67452301, 0xefcdab89, 0x98badcfe, 0x10325476, 0xc3d2e1f0⟩
  workBlock
  messageSize := 0

/-- `ROTL32` -/
def rotl32 (dword n : UInt32) : UInt32 := (dword <<< n) ^^^ (dword >>> (32 - n))

/-- The first sixteen words of `w`: those of the block. -/
def blockWords (block : Bytes) : List UInt32 :=
  (List.range 16).map fun i =>
    ((block.getD (i * 4) 0).toUInt32 <<< 24) ||| ((block.getD (i * 4 + 1) 0).toUInt32 <<< 16) |||
      ((block.getD (i * 4 + 2) 0).toUInt32 <<< 8) ||| (block.getD (i * 4 + 3) 0).toUInt32

/-- The eighty words of `w`. -/
def schedule (block : Bytes) : List UInt32 :=
  (List.range' 16 64).foldl
    (fun w i => w ++
      [rotl32 (w.getD (i - 3) 0 ^^^ w.getD (i - 8) 0 ^^^ w.getD (i - 14) 0 ^^^ w.getD (i - 16) 0) 1])
    (blockWords block)

/-- What a round adds for `b`, `c` and `d`, with its constant. -/
def roundTerm (i : Nat) (b c d : UInt32) : UInt32 :=
  if i < 20 then ((b &&& c) ||| (~~~b &&& d)) + 0x5a827999
  else if i < 40 then (b ^^^ c ^^^ d) + 0x6ed9eba1
  else if i < 60 then ((b &&& c) ||| (b &&& d) ||| (c &&& d)) + 0x8f1bbcdc
  else (b ^^^ c ^^^ d) + 0xca62c1d6

/-- One of the eighty rounds. -/
def round (w : List UInt32) (h : Sha1Hash) (i : Nat) : Sha1Hash :=
  ⟨rotl32 h.h₀ 5 + roundTerm i h.h₁ h.h₂ h.h₃ + h.h₄ + w.getD i 0, h.h₀, rotl32 h.h₁ 30, h.h₂,
    h.h₃⟩

/-- `sha1ProcessBlock` -/
def processBlock (hash : Sha1Hash) (block : Bytes) : Sha1Hash :=
  let h := (List.range 80).foldl (round (schedule block)) hash
  ⟨hash.h₀ + h.h₀, hash.h₁ + h.h₁, hash.h₂ + h.h₂, hash.h₃ + h.h₃, hash.h₄ + h.h₄⟩

/-- The loop over whole blocks, with the bytes it leaves. Each round takes 64 bytes. -/
def processBlocks : Nat → Sha1Hash → Bytes → Sha1Hash × Bytes
  | 0, hash, buffer => (hash, buffer)
  | fuel + 1, hash, buffer =>
    if buffer.length ≥ 64 then
      processBlocks fuel (processBlock hash (buffer.take 64)) (buffer.drop 64)
    else
      (hash, buffer)

variable (s : Sha1)

/-- The end of `Sha1::update`: whole blocks, then what is left over. -/
def updateBlocks (buffer : Bytes) : Sha1 :=
  let (hash, rest) := processBlocks (buffer.length / 64) s.hash buffer
  { s with hash, workBlock := rest ++ s.workBlock.drop rest.length }

/-- `Sha1::update` -/
def update (buffer : Bytes) : Sha1 :=
  let wbSize := s.messageSize % 64
  let s := { s with messageSize := (s.messageSize + buffer.length) % 2 ^ 64 }
  if wbSize > 0 then
    let left := 64 - wbSize
    let part := buffer.take (min buffer.length left)
    let s :=
      { s with workBlock := s.workBlock.take wbSize ++ part ++ s.workBlock.drop (wbSize + part.length) }
    if buffer.length < left then s
    else
      updateBlocks { s with hash := processBlock s.hash s.workBlock } (buffer.drop left)
  else
    s.updateBlocks buffer

/-- The bytes of a word, the most significant first. -/
def wordBytes (w : UInt32) : Bytes :=
  [(w >>> 24).toUInt8, (w >>> 16).toUInt8, (w >>> 8).toUInt8, w.toUInt8]

/-- `Sha1::digest(char hash[20])` -/
def digest : Bytes :=
  let bitSize := s.messageSize * 8 % 2 ^ 64
  let padLen := [56, 48, 40, 32, 24, 16, 8, 0].map fun n => UInt8.ofNat (bitSize >>> n)
  let wbSize := s.messageSize % 64
  let pad := if wbSize > 55 then 64 - wbSize + 56 else 56 - wbSize
  let h := ((s.update ((0x80 :: List.replicate 63 0).take pad)).update padLen).hash
  wordBytes h.h₀ ++ wordBytes h.h₁ ++ wordBytes h.h₂ ++ wordBytes h.h₃ ++ wordBytes h.h₄

end Sha1

/-- `sha1Binary` -/
def sha1Binary (str : Bytes) : Bytes := ((Sha1.reset (List.replicate 64 0)).update str).digest

end Codec

end Brickred
