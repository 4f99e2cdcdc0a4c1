import Brickred.Codec.BlockHash

/-!
# SHA-256 (`codec/sha256.cc`)
-/

namespace Brickred

namespace Codec

/-- The eight words of `hash_`. -/
structure Sha256Hash where
  h₀ : UInt32
  h₁ : UInt32
  h₂ : UInt32
  h₃ : UInt32
  h₄ : UInt32
  h₅ : UInt32
  h₆ : UInt32
  h₇ : UInt32
deriving DecidableEq

def Sha256Hash.words (h : Sha256Hash) : List UInt32 :=
  [h.h₀, h.h₁, h.h₂, h.h₃, h.h₄, h.h₅, h.h₆, h.h₇]

abbrev Sha256 := BlockHash Sha256Hash

namespace Sha256

def initialHash : Sha256Hash :=
  ⟨0x6a09e667, 0xbb67ae85, 0x3c6ef372, 0xa54ff53a, 0x510e527f, 0x9b05688c, 0x1f83d9ab,
    0x5be0cd19⟩

/-- `Sha256::reset`. The work block is not initialised; no byte of it is read before
it is written. -/
def reset (workBlock : Bytes) : Sha256 := ⟨initialHash, workBlock, 0⟩

/-- The constants `k`. -/
def k : List UInt32 :=
  [0x428a2f98, 0x71374491, 0xb5c0fbcf, 0xe9b5dba5, 0x3956c25b, 0x59f111f1, 0x923f82a4, 0xab1c5ed5,
    0xd807aa98, 0x12835b01, 0x243185be, 0x550c7dc3, 0x72be5d74, 0x80deb1fe, 0x9bdc06a7, 0xc19bf174,
    0xe49b69c1, 0xefbe4786, 0x0fc19dc6, 0x240ca1cc, 0x2de92c6f, 0x4a7484aa, 0x5cb0a9dc, 0x76f988da,
    0x983e5152, 0xa831c66d, 0xb00327c8, 0xbf597fc7, 0xc6e00bf3, 0xd5a79147, 0x06ca6351, 0x14292967,
    0x27b70a85, 0x2e1b2138, 0x4d2c6dfc, 0x53380d13, 0x650a7354, 0x766a0abb, 0x81c2c92e, 0x92722c85,
    0xa2bfe8a1, 0xa81a664b, 0xc24b8b70, 0xc76c51a3, 0xd192e819, 0xd6990624, 0xf40e3585, 0x106aa070,
    0x19a4c116, 0x1e376c08, 0x2748774c, 0x34b0bcb5, 0x391c0cb3, 0x4ed8aa4a, 0x5b9cca4f, 0x682e6ff3,
    0x748f82ee, 0x78a5636f, 0x84c87814, 0x8cc70208, 0x90befffa, 0xa4506ceb, 0xbef9a3f7, 0xc67178f2]

/-- `ROTRIGHT` -/
def rotRight (a b : UInt32) : UInt32 := (a >>> b) ||| (a <<< (32 - b))
/-- `CH` -/
def ch (x y z : UInt32) : UInt32 := (x &&& y) ^^^ (~~~x &&& z)
/-- `MAJ` -/
def maj (x y z : UInt32) : UInt32 := (x &&& y) ^^^ (x &&& z) ^^^ (y &&& z)
/-- `EP0` -/
def ep0 (x : UInt32) : UInt32 := rotRight x 2 ^^^ rotRight x 13 ^^^ rotRight x 22
/-- `EP1` -/
def ep1 (x : UInt32) : UInt32 := rotRight x 6 ^^^ rotRight x 11 ^^^ rotRight x 25
/-- `SIG0` -/
def sig0 (x : UInt32) : UInt32 := rotRight x 7 ^^^ rotRight x 18 ^^^ (x >>> 3)
/-- `SIG1` -/
def sig1 (x : UInt32) : UInt32 := rotRight x 17 ^^^ rotRight x 19 ^^^ (x >>> 10)

/-- The first sixteen words of `w`: those of the block. -/
def blockWords (block : Bytes) : List UInt32 :=
  (List.range 16).map fun i =>
    ((block.getD (i * 4) 0).toUInt32 <<< 24) ||| ((block.getD (i * 4 + 1) 0).toUInt32 <<< 16) |||
      ((block.getD (i * 4 + 2) 0).toUInt32 <<< 8) ||| (block.getD (i * 4 + 3) 0).toUInt32

/-- The sixty-four words of `w`. -/
def schedule (block : Bytes) : List UInt32 :=
  (List.range' 16 48).foldl
    (fun w i => w ++
      [sig1 (w.getD (i - 2) 0) + w.getD (i - 7) 0 + sig0 (w.getD (i - 15) 0) + w.getD (i - 16) 0])
    (blockWords block)

/-- One of the sixty-four rounds. -/
def round (w : List UInt32) (r : Sha256Hash) (i : Nat) : Sha256Hash :=
  let t₁ := r.h₇ + ep1 r.h₄ + ch r.h₄ r.h₅ r.h₆ + k.getD i 0 + w.getD i 0
  let t₂ := ep0 r.h₀ + maj r.h₀ r.h₁ r.h₂
  ⟨t₁ + t₂, r.h₀, r.h₁, r.h₂, r.h₃ + t₁, r.h₄, r.h₅, r.h₆⟩

/-- `sha256ProcessBlock` -/
def processBlock (hash : Sha256Hash) (block : Bytes) : Sha256Hash :=
  let r := (List.range 64).foldl (round (schedule block)) hash
  ⟨hash.h₀ + r.h₀, hash.h₁ + r.h₁, hash.h₂ + r.h₂, hash.h₃ + r.h₃, hash.h₄ + r.h₄,
    hash.h₅ + r.h₅, hash.h₆ + r.h₆, hash.h₇ + r.h₇⟩

/-- `Sha256::update` -/
def update : Sha256 → Bytes → Sha256 := BlockHash.update processBlock

/-- `Sha256::digest(char hash[32])` -/
def digest : Sha256 → Bytes := BlockHash.digest processBlock Sha256Hash.words false

end Sha256

/-- `sha256Binary` -/
def sha256Binary (str : Bytes) : Bytes := ((Sha256.reset (List.replicate 64 0)).update str).digest

end Codec

end Brickred
