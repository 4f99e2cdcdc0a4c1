import Brickred.Codec.BlockHash

/-!
# MD5 (`codec/md5.cc`)
-/

namespace Brickred

namespace Codec

/-- The four words of `hash_`. -/
structure Md5Hash where
  h₀ : UInt32
  h₁ : UInt32
  h₂ : UInt32
  h₃ : UInt32
deriving DecidableEq

def Md5Hash.words (h : Md5Hash) : List UInt32 := [h.h₀, h.h₁, h.h₂, h.h₃]

abbrev Md5 := BlockHash Md5Hash

namespace Md5

def initialHash : Md5Hash := ⟨0x67452301, 0xefcdab89, 0x98badcfe, 0x10325476⟩

/-- `Md5::reset`. The work block is not initialised; no byte of it is read before
it is written. -/
def reset (workBlock : Bytes) : Md5 := ⟨initialHash, workBlock, 0⟩

/-- `ROTLEFT` -/
def rotLeft (a b : UInt32) : UInt32 := (a <<< b) ||| (a >>> (32 - b))

/-- `F` -/
def f (x y z : UInt32) : UInt32 := (x &&& y) ||| (~~~x &&& z)
/-- `G` -/
def g (x y z : UInt32) : UInt32 := (x &&& z) ||| (y &&& ~~~z)
/-- `H` -/
def h (x y z : UInt32) : UInt32 := x ^^^ y ^^^ z
/-- `I` -/
def i (x y z : UInt32) : UInt32 := y ^^^ (x ||| ~~~z)

/-- The words of the block. -/
def blockWords (block : Bytes) : List UInt32 :=
  (List.range 16).map fun i =>
    ((block.getD (i * 4 + 3) 0).toUInt32 <<< 24) ||| ((block.getD (i * 4 + 2) 0).toUInt32 <<< 16) |||
      ((block.getD (i * 4 + 1) 0).toUInt32 <<< 8) ||| (block.getD (i * 4) 0).toUInt32

/-- `FF`, `GG`, `HH` and `II`, which differ in the function. The next call has the
registers moved round by one, so the one just written is its second; after four calls
they are back in place. -/
def step (fn : UInt32 → UInt32 → UInt32 → UInt32) (w : List UInt32) (r : Md5Hash)
    (mst : Nat × UInt32 × UInt32) : Md5Hash :=
  let (m, s, t) := mst
  ⟨r.h₃, r.h₁ + rotLeft (r.h₀ + (fn r.h₁ r.h₂ r.h₃ + w.getD m 0 + t)) s, r.h₁, r.h₂⟩

/-- The word, the shift and the constant of each call of `FF`. -/
def callsFF : List (Nat × UInt32 × UInt32) :=
  [(0, 7, 0xd76aa478), (1, 12, 0xe8c7b756), (2, 17, 0x242070db), (3, 22, 0xc1bdceee),
    (4, 7, 0xf57c0faf), (5, 12, 0x4787c62a), (6, 17, 0xa8304613), (7, 22, 0xfd469501),
    (8, 7, 0x698098d8), (9, 12, 0x8b44f7af), (10, 17, 0xffff5bb1), (11, 22, 0x895cd7be),
    (12, 7, 0x6b901122), (13, 12, 0xfd987193), (14, 17, 0xa679438e), (15, 22, 0x49b40821)]

/-- The same for `GG`. -/
def callsGG : List (Nat × UInt32 × UInt32) :=
  [(1, 5, 0xf61e2562), (6, 9, 0xc040b340), (11, 14, 0x265e5a51), (0, 20, 0xe9b6c7aa),
    (5, 5, 0xd62f105d), (10, 9, 0x02441453), (15, 14, 0xd8a1e681), (4, 20, 0xe7d3fbc8),
    (9, 5, 0x21e1cde6), (14, 9, 0xc33707d6), (3, 14, 0xf4d50d87), (8, 20, 0x455a14ed),
    (13, 5, 0xa9e3e905), (2, 9, 0xfcefa3f8), (7, 14, 0x676f02d9), (12, 20, 0x8d2a4c8a)]

/-- The same for `HH`. -/
def callsHH : List (Nat × UInt32 × UInt32) :=
  [(5, 4, 0xfffa3942), (8, 11, 0x8771f681), (11, 16, 0x6d9d6122), (14, 23, 0xfde5380c),
    (1, 4, 0xa4beea44), (4, 11, 0x4bdecfa9), (7, 16, 0xf6bb4b60), (10, 23, 0xbebfbc70),
    (13, 4, 0x289b7ec6), (0, 11, 0xeaa127fa), (3, 16, 0xd4ef3085), (6, 23, 0x04881d05),
    (9, 4, 0xd9d4d039), (12, 11, 0xe6db99e5), (15, 16, 0x1fa27cf8), (2, 23, 0xc4ac5665)]

/-- The same for `II`. -/
def callsII : List (Nat × UInt32 × UInt32) :=
  [(0, 6, 0xf4292244), (7, 10, 0x432aff97), (14, 15, 0xab9423a7), (5, 21, 0xfc93a039),
    (12, 6, 0x655b59c3), (3, 10, 0x8f0ccc92), (10, 15, 0xffeff47d), (1, 21, 0x85845dd1),
    (8, 6, 0x6fa87e4f), (15, 10, 0xfe2ce6e0), (6, 15, 0xa3014314), (13, 21, 0x4e0811a1),
    (4, 6, 0xf7537e82), (11, 10, 0xbd3af235), (2, 15, 0x2ad7d2bb), (9, 21, 0xeb86d391)]

/-- `md5ProcessBlock` -/
def processBlock (hash : Md5Hash) (block : Bytes) : Md5Hash :=
  let w := blockWords block
  let r := callsFF.foldl (step f w) hash
  let r := callsGG.foldl (step g w) r
  let r := callsHH.foldl (step h w) r
  let r := callsII.foldl (step i w) r
  ⟨hash.h₀ + r.h₀, hash.h₁ + r.h₁, hash.h₂ + r.h₂, hash.h₃ + r.h₃⟩

/-- `Md5::update` -/
def update : Md5 → Bytes → Md5 := BlockHash.update processBlock

/-- `Md5::digest(char hash[16])` -/
def digest : Md5 → Bytes := BlockHash.digest processBlock Md5Hash.words true

end Md5

/-- `md5Binary` -/
def md5Binary (str : Bytes) : Bytes := ((Md5.reset (List.replicate 64 0)).update str).digest

end Codec

end Brickred
