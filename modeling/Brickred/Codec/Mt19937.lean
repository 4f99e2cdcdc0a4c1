import Brickred.Lib.Rejection
import Brickred.Lib.XorShift

/-!
# The random number generator (`codec/mt19937.cc`)

`nextInt` is the source of raw words; the other two overloads draw from it until a
word is accepted. A state that was never seeded is any state here: the default
constructor leaves the words as they were. The rejection loop has no bound in the
source, so it runs on fuel, and what it returns is said by the first word that is
accepted.
-/

namespace Brickred

namespace Codec

/-- `Mt19937::Impl`, with `N` words. -/
structure Mt19937 where
  mt : Vector UInt32 624
  mti : Nat
  mti_le : mti ≤ 624

namespace Mt19937

/-- `Mt19937::Impl::seed` -/
def seed (g : Mt19937) (s : UInt32) : Mt19937 :=
  let mt := Fin.foldl 623
    (fun (mt : Vector UInt32 624) i => mt.set (i.val + 1)
      ((1812433253 : UInt32) * (mt[i.val] ^^^ (mt[i.val] >>> 30)) + UInt32.ofNat (i.val + 1)))
    (g.mt.set 0 s)
  ⟨mt, 624, Nat.le_refl 624⟩

/-- The words while a key is mixed in, and the index `i` of the two loops. -/
structure Mixing where
  mt : Vector UInt32 624
  i : Nat
  pos : 0 < i
  lt : i < 624

/-- Write `mt_[i]` and go on to the next index. Behind the last one is index 1, and
the last word is copied to the front. -/
def Mixing.put (x : Mixing) (word : UInt32) : Mixing :=
  let mt := x.mt.set x.i word x.lt
  if h : x.i + 1 < 624 then ⟨mt, x.i + 1, Nat.succ_pos x.i, h⟩
  else ⟨mt.set 0 mt[623], 1, by decide, by decide⟩

/-- The previous word with its highest bits folded in, times a constant, mixed into
`mt_[i]`. -/
def Mixing.nonLinear (x : Mixing) (factor : UInt32) : UInt32 :=
  have := x.lt
  let y := x.mt[x.i - 1]
  x.mt[x.i] ^^^ ((y ^^^ (y >>> 30)) * factor)

/-- The first loop of `Mt19937::Impl::seed(key)`, for `k` more rounds. -/
def mixKey {keySize : Nat} (key : Vector UInt32 keySize) : Nat → Fin keySize → Mixing → Mixing
  | 0, _, x => x
  | k + 1, j, x =>
    let x := x.put (x.nonLinear 1664525 + key[j] + UInt32.ofNat j)
    mixKey key k
      (if h : j.val + 1 < keySize then ⟨j.val + 1, h⟩ else ⟨0, Nat.zero_lt_of_lt j.isLt⟩) x

/-- The second loop of `Mt19937::Impl::seed(key)`. -/
def mixIndex : Nat → Mixing → Mixing
  | 0, x => x
  | k + 1, x => mixIndex k (x.put (x.nonLinear 1566083941 - UInt32.ofNat x.i))

/-- `Mt19937::Impl::seed(key)`. A key is an array of at least one word: with an empty one the
source would read `key[0]`. Its length is one that fits an `int`. -/
def seedKey {keySize : Nat} (g : Mt19937) (key : Vector UInt32 (keySize + 1)) : Mt19937 :=
  let x : Mixing := ⟨(g.seed 19650218).mt, 1, by decide, by decide⟩
  let x := mixKey key (max 624 (keySize + 1)) 0 x
  let x := mixIndex 623 x
  -- MSB is 1; assuring non-zero initial array
  ⟨x.mt.set 0 0x80000000, 624, Nat.le_refl 624⟩

/-- The word made of the highest bit of one word and the others of the next, as the
three loops of `nextInt` mix it in. -/
def mixed (word next : UInt32) : UInt32 :=
  let y := (word &&& 0x80000000) ||| (next &&& 0x7fffffff)
  (y >>> 1) ^^^ (if y &&& 1 = 0 then 0 else 0x9908b0df)

/-- The words generated at one time, from those before. The first loop runs to `N - M`,
the second one to `N - 1`, and it reads words that the first has written. -/
def generate (mt : Vector UInt32 624) : Vector UInt32 624 :=
  let mt := Fin.foldl 227
    (fun (mt : Vector UInt32 624) i => mt.set i.val (mt[i.val + 397] ^^^ mixed mt[i.val] mt[i.val + 1])) mt
  let mt := Fin.foldl 396
    (fun (mt : Vector UInt32 624) i => mt.set (i.val + 227)
      (mt[i.val] ^^^ mixed mt[i.val + 227] mt[i.val + 228])) mt
  mt.set 623 (mt[396] ^^^ mixed mt[623] mt[0])

/-- The tempering at the end of `nextInt`. -/
def temper (y : UInt32) : UInt32 :=
  let y := y ^^^ (y >>> 11)
  let y := y ^^^ ((y <<< 7) &&& 0x9d2c5680)
  let y := y ^^^ ((y <<< 15) &&& 0xefc60000)
  y ^^^ (y >>> 18)

/-- `Mt19937::Impl::nextInt()` -/
def nextInt (g : Mt19937) : UInt32 × Mt19937 :=
  if h : g.mti < 624 then
    (temper g.mt[g.mti], ⟨g.mt, g.mti + 1, h⟩)
  else
    let mt := generate g.mt
    (temper mt[0], ⟨mt, 1, by decide⟩)

/-- The loop of `nextInt(max)`. -/
def nextIntMaxLoop (max dropThrehold : UInt32) : Nat → Mt19937 → Option (UInt32 × Mt19937)
  | 0, _ => none
  | fuel + 1, g =>
    let (r, g) := g.nextInt
    if r < dropThrehold then nextIntMaxLoop max dropThrehold fuel g
    else some (r % max, g)

/-- `Mt19937::Impl::nextInt(uint32_t max)` -/
def nextIntMax (fuel : Nat) (g : Mt19937) (max : UInt32) : Option (UInt32 × Mt19937) :=
  if max ≤ 1 then some (0, g) else nextIntMaxLoop max (-max % max) fuel g

/-- `Mt19937::Impl::nextInt(uint32_t min, uint32_t max)` -/
def nextIntMinMax (fuel : Nat) (g : Mt19937) (min max : UInt32) : Option (UInt32 × Mt19937) :=
  if min ≥ max then some (min, g)
  else
    let offset := max - min
    if offset = 0xffffffff then some g.nextInt
    else (nextIntMax fuel g (offset + 1)).map fun (v, g) => (min + v, g)

/-! ## The raw words -/

theorem temper_injective : Function.Injective temper := by
  intro x y h
  apply UInt32.toBitVec_inj.1
  have h := congrArg UInt32.toBitVec h
  simp only [temper, UInt32.toBitVec_xor, UInt32.toBitVec_and, UInt32.toBitVec_shiftRight,
    UInt32.toBitVec_shiftLeft] at h
  -- the steps are taken back, the last one first
  have h := XorShift.injective_shiftRight (k := 18) (by decide) h
  have h := XorShift.injective_shiftLeft_and (k := 15) 0xefc60000 (by decide) h
  have h := XorShift.injective_shiftLeft_and (k := 7) 0x9d2c5680 (by decide) h
  exact XorShift.injective_shiftRight (k := 11) (by decide) h

/-- Every raw word comes from a word of the state: the tempering hides none. -/
theorem temper_surjective : Function.Surjective temper := by
  have hfinite : Finite UInt32 := Finite.of_injective UInt32.toFin fun _ _ => UInt32.toFin_inj.1
  exact Finite.injective_iff_surjective.1 temper_injective

/-! ## One raw word -/

/-- How many values lie between `min` and `max`. -/
def size (min max : UInt32) : Nat := max.toNat - min.toNat + 1

theorem size_pos (min max : UInt32) : 0 < size min max := Nat.succ_pos _

/-- What `nextInt(max)` makes of one raw word: nothing where the word is dropped. -/
def drawnBelow (max r : UInt32) : Option UInt32 :=
  if r < -max % max then none else some (r % max)

/-- What `nextInt(min, max)` makes of one raw word. -/
def drawn (min max r : UInt32) : Option UInt32 :=
  let offset := max - min
  if offset = 0xffffffff then some r else (drawnBelow (offset + 1) r).map (min + ·)

variable {min max r v : UInt32} {fuel : Nat} {g g' : Mt19937}

theorem nextIntMaxLoop_eq :
    nextIntMaxLoop max (-max % max) fuel g =
      Rejection.sample nextInt (drawnBelow max) fuel g := by
  induction fuel generalizing g with
  | zero => rfl
  | succ fuel ih =>
    by_cases hdrop : g.nextInt.1 < -max % max
    · have hnone : drawnBelow max g.nextInt.1 = none := if_pos hdrop
      rw [Rejection.sample_rejected hnone, ← ih]
      exact if_pos hdrop
    · have hsome : drawnBelow max g.nextInt.1 = some (g.nextInt.1 % max) := if_neg hdrop
      rw [Rejection.sample_accepted hsome]
      exact if_neg hdrop

/-- The size of a range that is not the full one, as the source computes it. -/
theorem toNat_size (h : min < max) (hfull : max - min ≠ 0xffffffff) :
    (max - min + 1).toNat = size min max := by
  have hsub : (max - min).toNat = max.toNat - min.toNat := 
    UInt32.toNat_sub_of_le _ _ (UInt32.le_of_lt h)
  have hne : (max - min).toNat ≠ 4294967295 := fun he => hfull (UInt32.toNat_inj.1 he)
  have hmax := max.toNat_lt
  rw [UInt32.toNat_add, hsub, size]
  rw [hsub] at hne
  exact Nat.mod_eq_of_lt (by simp; omega)

/-- The full range takes each raw word as it is. -/
theorem nextIntMinMax_full (h : min < max) (hfull : max - min = 0xffffffff) :
    nextIntMinMax fuel g min max = some g.nextInt := by
  have hlt : ¬ min ≥ max := UInt32.not_le.2 h
  rw [nextIntMinMax, if_neg hlt]
  exact if_pos hfull

/-- Any other range is drawn from the first raw word that `drawn` accepts. -/
theorem nextIntMinMax_below (h : min < max) (hfull : max - min ≠ 0xffffffff) :
    nextIntMinMax fuel g min max = Rejection.sample nextInt (drawn min max) fuel g := by
  have hlt : ¬ min ≥ max := UInt32.not_le.2 h
  have hbelow : drawn min max = fun r => (drawnBelow (max - min + 1) r).map (min + ·) := by
    funext r
    exact if_neg hfull
  have hone : ¬ max - min + 1 ≤ 1 := by
    rw [UInt32.le_iff_toNat_le, toNat_size h hfull, size]
    have := UInt32.lt_iff_toNat_lt.1 h
    exact show ¬ max.toNat - min.toNat + 1 ≤ 1 by omega
  rw [nextIntMinMax, if_neg hlt]
  dsimp only
  rw [if_neg hfull, nextIntMax, if_neg hone, nextIntMaxLoop_eq, hbelow, ← Rejection.sample_map]
  rfl

/-- One sampling loop describes both. -/
theorem nextIntMinMax_eq (h : min < max) :
    nextIntMinMax (fuel + 1) g min max =
      Rejection.sample nextInt (drawn min max) (fuel + 1) g := by
  by_cases hfull : max - min = 0xffffffff
  · have hsome : drawn min max g.nextInt.1 = some g.nextInt.1 := if_pos hfull
    rw [nextIntMinMax_full h hfull, Rejection.sample_accepted hsome]
  · exact nextIntMinMax_below h hfull

/-! ## Counting raw words -/

/-- The threshold is what is left over of all words, although it is computed without
a larger type. -/
theorem toNat_dropThrehold (hmax : 0 < max.toNat) :
    (-max % max).toNat = 2 ^ 32 % max.toNat := by
  have hlt := max.toNat_lt
  have hneg : (-max).toNat = 2 ^ 32 - max.toNat := by
    rw [UInt32.toNat_neg]
    exact Nat.mod_eq_of_lt (show 2 ^ 32 - max.toNat < 2 ^ 32 by omega)
  rw [UInt32.toNat_mod, hneg]
  exact (Nat.mod_eq_sub_mod (Nat.le_of_lt hlt)).symm

theorem drawnBelow_eq_some_iff (hmax : 0 < max.toNat) :
    drawnBelow max r = some v ↔
      2 ^ 32 % max.toNat ≤ r.toNat ∧ v.toNat = r.toNat % max.toNat := by
  rw [drawnBelow]
  by_cases hdrop : r < -max % max
  · have hlt : r.toNat < 2 ^ 32 % max.toNat := by
      rw [← toNat_dropThrehold hmax]
      exact UInt32.lt_iff_toNat_lt.1 hdrop
    rw [if_pos hdrop]
    constructor
    · intro h
      cases h
    · rintro ⟨hle, -⟩
      omega
  · have hle : 2 ^ 32 % max.toNat ≤ r.toNat := by
      rw [← toNat_dropThrehold hmax]
      exact UInt32.le_iff_toNat_le.1 (UInt32.not_lt.1 hdrop)
    rw [if_neg hdrop, Option.some.injEq, ← UInt32.toNat_inj, UInt32.toNat_mod]
    constructor
    · intro h
      exact ⟨hle, h.symm⟩
    · rintro ⟨-, h⟩
      exact h.symm

/-- The raw words that give a value: from the threshold on, one residue. The full range
is the case where the threshold is zero and each word its own residue. -/
theorem drawn_eq_some_iff (h : min < max) :
    drawn min max r = some v ↔
      2 ^ 32 % size min max ≤ r.toNat ∧ v.toNat = min.toNat + r.toNat % size min max := by
  have hlt := UInt32.lt_iff_toNat_lt.1 h
  have hmax := max.toNat_lt
  have hr := r.toNat_lt
  have hsub : (max - min).toNat = max.toNat - min.toNat :=
    UInt32.toNat_sub_of_le _ _ (UInt32.le_of_lt h)
  by_cases hfull : max - min = 0xffffffff
  · have hsize : size min max = 2 ^ 32 := by
      rw [hfull] at hsub
      simp at hsub
      rw [size]
      omega
    have hmin : min.toNat = 0 := by
      rw [size] at hsize
      omega
    have hdrawn : drawn min max r = some r := if_pos hfull
    rw [hdrawn, hsize, hmin, Nat.mod_self, Nat.mod_eq_of_lt hr, Nat.zero_add,
      Option.some.injEq, ← UInt32.toNat_inj]
    constructor
    · intro h
      exact ⟨Nat.zero_le _, h.symm⟩
    · rintro ⟨-, h⟩
      exact h.symm
  · have hsize := toNat_size h hfull
    have hpos : 0 < (max - min + 1).toNat := by
      rw [hsize]
      exact size_pos min max
    have hdrawn : drawn min max r = (drawnBelow (max - min + 1) r).map (min + ·) := if_neg hfull
    rw [hdrawn, Option.map_eq_some_iff]
    have hadd : ∀ u : UInt32, u.toNat = r.toNat % size min max →
        (min + u).toNat = min.toNat + u.toNat := by
      intro u hu
      have hmod := Nat.mod_lt r.toNat (size_pos min max)
      rw [UInt32.toNat_add]
      apply Nat.mod_eq_of_lt
      rw [size] at hu hmod
      omega
    constructor
    · rintro ⟨u, hu, rfl⟩
      rw [drawnBelow_eq_some_iff hpos, hsize] at hu
      rw [hadd u hu.2, ← hu.2]
      exact ⟨hu.1, rfl⟩
    · rintro ⟨hle, hv⟩
      refine ⟨r % (max - min + 1), ?_, ?_⟩
      · rw [drawnBelow_eq_some_iff hpos, hsize, UInt32.toNat_mod, hsize]
        exact ⟨hle, rfl⟩
      · have hu : (r % (max - min + 1)).toNat = r.toNat % size min max := by
          rw [UInt32.toNat_mod, hsize]
        rw [← UInt32.toNat_inj, hadd _ hu, hu, hv]

theorem drawn_isSome_iff (h : min < max) :
    (drawn min max r).isSome ↔ 2 ^ 32 % size min max ≤ r.toNat := by
  rw [Option.isSome_iff_exists]
  constructor
  · rintro ⟨v, hv⟩
    exact ((drawn_eq_some_iff h).1 hv).1
  · intro hle
    have hlt := UInt32.lt_iff_toNat_lt.1 h
    have hmax := max.toNat_lt
    have hmod := Nat.mod_lt r.toNat (size_pos min max)
    refine ⟨UInt32.ofNat (min.toNat + r.toNat % size min max), (drawn_eq_some_iff h).2 ⟨hle, ?_⟩⟩
    apply UInt32.toNat_ofNat_of_lt'
    rw [size] at hmod ⊢
    exact show _ < 2 ^ 32 by omega

/-- Only values of the range are drawn. -/
theorem drawn_mem (h : min < max) (hv : drawn min max r = some v) : min ≤ v ∧ v ≤ max := by
  have hlt := UInt32.lt_iff_toNat_lt.1 h
  have hmod := Nat.mod_lt r.toNat (size_pos min max)
  obtain ⟨-, hv⟩ := (drawn_eq_some_iff h).1 hv
  rw [UInt32.le_iff_toNat_le, UInt32.le_iff_toNat_le]
  rw [size] at hv hmod
  constructor <;> omega

theorem count_drawn (h : min < max) (hlo : min ≤ v) (hhi : v ≤ max) :
    Nat.count (fun r => drawn min max (UInt32.ofNat r) = some v) (2 ^ 32) =
      2 ^ 32 / size min max := by
  have hlo := UInt32.le_iff_toNat_le.1 hlo
  have hhi := UInt32.le_iff_toNat_le.1 hhi
  have hv : v.toNat - min.toNat < size min max := by
    rw [size]
    omega
  rw [← Rejection.count_residue hv]
  apply Rejection.count_congr
  intro k hk
  rw [drawn_eq_some_iff h, UInt32.toNat_ofNat_of_lt' hk]
  constructor
  · rintro ⟨hle, hv⟩
    exact ⟨hle, by omega⟩
  · rintro ⟨hle, hv⟩
    exact ⟨hle, by omega⟩

theorem half_lt_count_drawn (h : min < max) :
    2 ^ 31 < Nat.count (fun r => (drawn min max (UInt32.ofNat r)).isSome) (2 ^ 32) := by
  have hlt := UInt32.lt_iff_toNat_lt.1 h
  have hmax := max.toNat_lt
  have hsize : size min max ≤ 2 ^ 32 := by
    rw [size]
    omega
  have hcount : Nat.count (fun r => (drawn min max (UInt32.ofNat r)).isSome) (2 ^ 32) =
      Nat.count (2 ^ 32 % size min max ≤ ·) (2 ^ 32) := by
    apply Rejection.count_congr
    intro k hk
    rw [drawn_isSome_iff h, UInt32.toNat_ofNat_of_lt' hk]
  have hhalf := Rejection.half_lt_count (size_pos min max) hsize
  rw [hcount]
  omega

theorem nextIntMinMax_mem (h : min < max) (hv : nextIntMinMax fuel g min max = some (v, g')) :
    min ≤ v ∧ v ≤ max := by
  by_cases hfull : max - min = 0xffffffff
  · rw [nextIntMinMax_full h hfull] at hv
    obtain ⟨rfl, rfl⟩ := Prod.ext_iff.1 (Option.some.inj hv)
    exact drawn_mem h (if_pos hfull)
  · rw [nextIntMinMax_below h hfull, Rejection.sample_eq_some_iff] at hv
    obtain ⟨n, -, -, hdrawn, -⟩ := hv
    exact drawn_mem h hdrawn

/-- `nextInt(min, max)` returns the value of the first raw word that is accepted, which
lies in the range. Of all raw words each value has the same number, and more than half
are accepted. -/
theorem nextIntMinMax_unbiased (h : min < max) :
    (∀ fuel g v g', nextIntMinMax fuel g min max = some (v, g') → min ≤ v ∧ v ≤ max) ∧
      (∀ fuel g v g', nextIntMinMax (fuel + 1) g min max = some (v, g') ↔
        ∃ n < fuel + 1, (∀ k < n, drawn min max (Rejection.word nextInt g k) = none) ∧
          drawn min max (Rejection.word nextInt g n) = some v ∧
          g' = Rejection.after nextInt g (n + 1)) ∧
      (∀ v, min ≤ v → v ≤ max →
        Nat.count (fun r => drawn min max (UInt32.ofNat r) = some v) (2 ^ 32) =
          2 ^ 32 / size min max) ∧
      2 ^ 31 < Nat.count (fun r => (drawn min max (UInt32.ofNat r)).isSome) (2 ^ 32) := by
  refine ⟨fun fuel g v g' => nextIntMinMax_mem h, ?_, fun v => count_drawn h,
    half_lt_count_drawn h⟩
  intro fuel g v g'
  rw [nextIntMinMax_eq h]
  exact Rejection.sample_eq_some_iff

/-- A die: the 3 has as many raw words as each of the other values, 715827882. -/
theorem nextIntMinMax_unbiased_die :
    Nat.count (fun r => drawn 1 6 (UInt32.ofNat r) = some 3) (2 ^ 32) = 715827882 := by
  have h := (nextIntMinMax_unbiased (show (1 : UInt32) < 6 by decide)).2.2.1 3
  exact h (by decide) (by decide)

end Mt19937

end Codec

end Brickred
