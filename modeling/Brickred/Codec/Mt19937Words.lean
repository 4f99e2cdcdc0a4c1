import Brickred.Codec.Mt19937
import Brickred.Lib.ShiftRegister

/-!
# The words of the generator (`codec/mt19937.cc`)

`nextInt` hands out 624 words and then makes the next 624 in place, in three loops.
Seen from outside it is one shift register: the words come from a sequence that is
told by its recurrence alone, the state after seeding is never the one that gives only
zeros, and the words repeat from the first one on.
-/

namespace Brickred

namespace Codec

namespace Mt19937

/-! ## The sequence -/

/-- How a word is made of one word, the next one and the one 397 behind it. -/
def twist (word next far : UInt32) : UInt32 := far ^^^ mixed word next

theorem one_lt_size : 1 < 624 := by decide

theorem far_lt_size : 397 < 624 := by decide

/-- The sequence of which the state is a window, before the tempering. -/
def sequence (g : Mt19937) (k : Nat) : UInt32 :=
  ShiftRegister.stream twist one_lt_size far_lt_size g.mt k

theorem sequence_obeys (g : Mt19937) : ShiftRegister.Obeys 624 397 twist g.sequence :=
  ShiftRegister.stream_obeys _ _ g.mt

open ShiftRegister (Holds Obeys)

variable {x : Nat → UInt32} {mt : Vector UInt32 624} {b : Nat}

/-- The three loops of `nextInt` make the next window of the sequence. -/
theorem generate_holds (hx : Obeys 624 397 twist x) (h : Holds x (624 * b) mt) :
    Holds x (624 * (b + 1)) (generate mt) := by
  have hfirst : Holds x (624 * b + 227) (Fin.foldl 227
      (fun (mt : Vector UInt32 624) i =>
        mt.set i.val (mt[i.val + 397] ^^^ mixed mt[i.val] mt[i.val + 1])) mt) := by
    refine ShiftRegister.foldl_rule (P := fun i => Holds x (624 * b + i)) h fun i mt h => ?_
    refine h.set (by omega) (by omega) ?_
    rw [h _ (624 * b + i + 397) _ (by omega) (by omega) (by omega),
      h _ (624 * b + i) _ (by omega) (by omega) (by omega),
      h _ (624 * b + i + 1) _ (by omega) (by omega) (by omega), hx]
    rfl
  have hsecond := ShiftRegister.foldl_rule (n := 396)
    (P := fun i => Holds x (624 * b + 227 + i))
    (f := fun (mt : Vector UInt32 624) i => mt.set (i.val + 227)
      (mt[i.val] ^^^ mixed mt[i.val + 227] mt[i.val + 228])) hfirst fun i mt h => by
    refine h.set (by omega) (by omega) ?_
    -- the word 397 behind has been made in this round already
    rw [h _ (624 * b + 227 + i + 397) _ (by omega) (by omega) (by omega),
      h _ (624 * b + 227 + i) _ (by omega) (by omega) (by omega),
      h _ (624 * b + 227 + i + 1) _ (by omega) (by omega) (by omega), hx]
    rfl
  have hlast := hsecond.set (j := 623) (v := x (624 * b + 623 + 624)) (by omega) (by omega) rfl
  have hword : x (624 * b + 623 + 624) = twist (x (624 * b + 623)) (x (624 * b + 624))
      (x (624 * b + 1020)) := hx _
  rw [hword, ← hsecond 396 (624 * b + 1020) (by omega) (by omega) (by omega) (by omega),
    ← hsecond 623 (624 * b + 623) (by omega) (by omega) (by omega) (by omega),
    ← hsecond 0 (624 * b + 624) (by omega) (by omega) (by omega) (by omega)] at hlast
  exact hlast

/-- The state is at a position of the sequence: its window is the last one that was made. -/
def At (x : Nat → UInt32) (g : Mt19937) (p : Nat) : Prop :=
  ∃ b, Holds x (624 * b) g.mt ∧ p = 624 * b + g.mti

theorem At.nextInt {g : Mt19937} {p : Nat} (hx : Obeys 624 397 twist x) (h : At x g p) :
    g.nextInt.1 = temper (x p) ∧ At x g.nextInt.2 (p + 1) := by
  obtain ⟨b, hwindow, rfl⟩ := h
  by_cases hmti : g.mti < 624
  · have heq : g.nextInt = (temper g.mt[g.mti], ⟨g.mt, g.mti + 1, hmti⟩) := dif_pos hmti
    rw [heq]
    constructor
    · rw [hwindow _ (624 * b + g.mti) hmti (by omega) (by omega) (by omega)]
    · exact ⟨b, hwindow, rfl⟩
  · have hfull : g.mti = 624 := Nat.le_antisymm g.mti_le (Nat.not_lt.mp hmti)
    have heq : g.nextInt = (temper (generate g.mt)[0], ⟨generate g.mt, 1, by decide⟩) := dif_neg hmti
    have hnext := generate_holds hx hwindow
    rw [heq, hfull]
    constructor
    · rw [hnext _ (624 * b + 624) _ (by omega) (by omega) (by omega)]
    · exact ⟨b + 1, hnext, by dsimp only; omega⟩

theorem At.word {g : Mt19937} {p : Nat} (hx : Obeys 624 397 twist x) (h : At x g p) (n : Nat) :
    Rejection.word Mt19937.nextInt g n = temper (x (p + n)) := by
  induction n generalizing g p with
  | zero => exact (h.nextInt hx).1
  | succ n ih =>
    rw [Rejection.word_succ, ih (h.nextInt hx).2, Nat.add_right_comm, Nat.add_assoc]

theorem at_sequence (g : Mt19937) : At g.sequence g g.mti :=
  ⟨0, ShiftRegister.stream_holds _ _ g.mt, (Nat.zero_add _).symm⟩

/-- The `n`-th raw word is the tempered word `n` places behind the position in the
sequence that starts with the words of the state. -/
theorem word_eq (g : Mt19937) (n : Nat) :
    Rejection.word nextInt g n = temper (g.sequence (g.mti + n)) :=
  (at_sequence g).word (sequence_obeys g) n

/-! ## What a word is made of -/

section Bits

variable {a b c w : UInt32}

theorem or_and (a b mask : UInt32) : (a ||| b) &&& mask = (a &&& mask) ||| (b &&& mask) :=
  UInt32.toBitVec_inj.1 BitVec.and_or_distrib_right

theorem and_and_of_disjoint {mask mask' : UInt32} (a : UInt32) (h : mask &&& mask' = 0) :
    (a &&& mask) &&& mask' = 0 := by
  rw [UInt32.and_assoc, h, UInt32.and_zero]

theorem and_and_same (a mask : UInt32) : (a &&& mask) &&& mask = a &&& mask := by
  rw [UInt32.and_assoc, UInt32.and_self]

/-- A word is its highest bit and the others. -/
theorem upper_or_lower (w : UInt32) : (w &&& 0x80000000) ||| (w &&& 0x7fffffff) = w := by
  rw [UInt32.and_comm w, UInt32.and_comm w, ← or_and]
  exact UInt32.toBitVec_inj.1 (BitVec.allOnes_and (x := w.toBitVec))

/-- The shifted word with the matrix mixed in tells the word: its highest bit is the one
that was shifted out. -/
theorem matrix_injective :
    Function.Injective fun y : UInt32 => (y >>> 1) ^^^ (if y &&& 1 = 0 then 0 else 0x9908b0df) := by
  have hodd : ∀ y y' : UInt32, (y >>> 1) ^^^ (0 : UInt32) ≠ (y' >>> 1) ^^^ 0x9908b0df := by
    intro y y' h
    have hbit := congrArg (fun w => w.toBitVec.getLsbD 31) h
    simp only [UInt32.toBitVec_xor, UInt32.toBitVec_shiftRight, BitVec.getLsbD_xor] at hbit
    have hshift : ∀ y : UInt32, (y.toBitVec >>> ((1 : UInt32).toBitVec % 32)).getLsbD 31 = false := by
      intro y
      rw [BitVec.ushiftRight_eq', BitVec.getLsbD_ushiftRight]
      exact BitVec.getLsbD_of_ge _ _ (by decide)
    rw [hshift, hshift] at hbit
    exact absurd hbit (by decide)
  have hsame : ∀ y y' : UInt32, y >>> 1 = y' >>> 1 → y &&& 1 = y' &&& 1 → y = y' := by
    intro y y' hshift hbit
    have hshift := congrArg UInt32.toNat hshift
    have hbit := congrArg UInt32.toNat hbit
    simp only [UInt32.toNat_shiftRight, UInt32.toNat_and, UInt32.toNat_one, Nat.and_one_is_mod]
      at hshift hbit
    rw [← UInt32.toNat_inj]
    change y.toNat >>> 1 = y'.toNat >>> 1 at hshift
    rw [Nat.shiftRight_one, Nat.shiftRight_one] at hshift
    omega
  have hone : ∀ y : UInt32, y &&& 1 ≠ 0 → y &&& 1 = 1 := by
    intro y hy
    rw [ne_eq, ← UInt32.toNat_inj, UInt32.toNat_and, UInt32.toNat_one, Nat.and_one_is_mod] at hy
    rw [← UInt32.toNat_inj, UInt32.toNat_and, UInt32.toNat_one, Nat.and_one_is_mod]
    change y.toNat % 2 ≠ 0 at hy
    omega
  intro y y' h
  dsimp only at h
  by_cases hy : y &&& 1 = 0 <;> by_cases hy' : y' &&& 1 = 0
  · rw [if_pos hy, if_pos hy', UInt32.xor_left_inj] at h
    exact hsame y y' h (hy.trans hy'.symm)
  · rw [if_pos hy, if_neg hy'] at h
    exact absurd h (hodd y y')
  · rw [if_neg hy, if_pos hy'] at h
    exact absurd h.symm (hodd y' y)
  · rw [if_neg hy, if_neg hy', UInt32.xor_left_inj] at h
    exact hsame y y' h ((hone y hy).trans (hone y' hy').symm)

/-- Of the oldest word only the highest bit is used, and it can be recovered together
with the other bits of the next word. -/
theorem twist_reversible : ShiftRegister.Reversible twist fun w => w &&& 0x80000000 where
  forget {a a' b c} h := by
    unfold twist mixed
    rw [h]
  recover {a a' b b' c} h := by
    have hy := matrix_injective ((UInt32.xor_right_inj c).mp h)
    have hupper := congrArg (· &&& (0x80000000 : UInt32)) hy
    have hlower := congrArg (· &&& (0x7fffffff : UInt32)) hy
    simp only [or_and, and_and_same, and_and_of_disjoint _ (show
      (0x7fffffff : UInt32) &&& 0x80000000 = 0 by decide), and_and_of_disjoint _ (show
      (0x80000000 : UInt32) &&& 0x7fffffff = 0 by decide), UInt32.or_zero, UInt32.zero_or]
      at hupper hlower
    refine ⟨hupper, fun hvis => ?_⟩
    rw [← upper_or_lower b, hvis, hlower, upper_or_lower]

end Bits

/-! ## No state of zeros, and no way out of the period -/

open ShiftRegister (Agree)

variable {g : Mt19937}

theorem sequence_lt (g : Mt19937) {k : Nat} (hk : k < 624) : g.sequence k = g.mt[k] :=
  ShiftRegister.stream_lt _ _ g.mt hk

/-- The words before a position and those behind it say the same of the state. -/
theorem agree_sequence_iff {x : Nat → UInt32} (hx : Obeys 624 397 twist x) (k i j : Nat) :
    Agree 624 (fun w : UInt32 => w &&& 0x80000000) g.sequence x (i + k) (j + k) ↔
      Agree 624 (fun w : UInt32 => w &&& 0x80000000) g.sequence x i j :=
  ShiftRegister.agree_add_iff twist_reversible (sequence_obeys g) hx (by decide) (by decide) k

theorem zeros_obey : Obeys 624 397 twist fun _ => 0 := by
  intro k
  exact show (0 : UInt32) = twist 0 0 0 by decide

/-- If 624 raw words in a row are zero, the state has been one of zeros from the start,
up to the bits that are never used. -/
theorem agree_zeros {n : Nat} (h : ∀ k < 624, Rejection.word nextInt g (n + k) = 0) :
    Agree 624 (fun w : UInt32 => w &&& 0x80000000) g.sequence (fun _ => 0) 0 0 := by
  have hzero : ∀ k < 624, g.sequence (g.mti + n + k) = 0 := by
    intro k hk
    have hword := h k hk
    rw [word_eq, ← Nat.add_assoc] at hword
    exact temper_injective (hword.trans (by decide))
  rw [← agree_sequence_iff zeros_obey (g.mti + n) 0 0, Nat.zero_add]
  refine ⟨?_, fun l _ hl => hzero l hl⟩
  have hfirst := hzero 0 (by decide)
  rw [Nat.add_zero] at hfirst
  dsimp only
  rw [hfirst]

/-- Each word of a fresh state comes from the one before it. -/
theorem seed_mt (g : Mt19937) (s : UInt32) : ∀ (j : Nat) (hj : j + 1 < 624),
    (g.seed s).mt[j + 1] = (1812433253 : UInt32) * ((g.seed s).mt[j] ^^^ ((g.seed s).mt[j] >>> 30)) +
      UInt32.ofNat (j + 1) := by
  intro j hj
  unfold seed
  dsimp only
  refine ShiftRegister.foldl_rule (n := 623)
    (P := fun i (mt : Vector UInt32 624) => ∀ (j : Nat) (hj : j + 1 < 624), j < i →
      mt[j + 1] = (1812433253 : UInt32) * (mt[j] ^^^ (mt[j] >>> 30)) + UInt32.ofNat (j + 1))
    (fun j hj hlt => absurd hlt (Nat.not_lt_zero j)) (fun i mt h j hj hlt => ?_) j hj (by omega)
  rw [Vector.getElem_set, Vector.getElem_set_ne _ _ (by omega)]
  by_cases hij : i.val = j
  · subst hij
    rw [if_pos rfl]
  · rw [if_neg (by omega)]
    exact h j hj (by omega)

theorem seed_not_zeros (g : Mt19937) (s : UInt32) :
    ¬ Agree 624 (fun w : UInt32 => w &&& 0x80000000) (g.seed s).sequence (fun _ => 0) 0 0 := by
  rintro ⟨-, hwords⟩
  have hone := hwords 1 (by decide) (by decide)
  have htwo := hwords 2 (by decide) (by decide)
  rw [Nat.zero_add, sequence_lt _ (by decide)] at hone htwo
  -- the second word after a zero is its own index
  rw [seed_mt g s 1 (by decide), hone] at htwo
  exact absurd htwo (by decide)

theorem seedKey_not_zeros {keySize : Nat} (g : Mt19937) (key : Vector UInt32 (keySize + 1)) :
    ¬ Agree 624 (fun w : UInt32 => w &&& 0x80000000) (g.seedKey key).sequence (fun _ => 0) 0 0 := by
  rintro ⟨hvis, -⟩
  have hmsb : (g.seedKey key).mt[0] = 0x80000000 := Vector.getElem_set_self _
  dsimp only at hvis
  rw [sequence_lt _ (by decide), hmsb] at hvis
  exact absurd hvis (by decide)

/-- After either kind of seeding, and however many words have been drawn, one of the next
624 raw words is not zero. -/
theorem words_not_all_zero (g : Mt19937) :
    (∀ (s : UInt32) (n : Nat), ∃ k < 624, Rejection.word nextInt (g.seed s) (n + k) ≠ 0) ∧
    ∀ {keySize : Nat} (key : Vector UInt32 (keySize + 1)) (n : Nat),
      ∃ k < 624, Rejection.word nextInt (g.seedKey key) (n + k) ≠ 0 := by
  constructor
  · intro s n
    by_contra hall
    push Not at hall
    exact seed_not_zeros g s (agree_zeros hall)
  · intro keySize key n
    by_contra hall
    push Not at hall
    exact seedKey_not_zeros g key (agree_zeros hall)

/-- The raw words repeat, and from the first one on: no state is left for good. -/
theorem words_periodic (hmti : 0 < g.mti) :
    ∃ p, 0 < p ∧ ∀ n, Rejection.word nextInt g (n + p) = Rejection.word nextInt g n := by
  have hfinite : Finite UInt32 := Finite.of_injective UInt32.toFin fun _ _ => UInt32.toFin_inj.1
  obtain ⟨p, hpos, hagree⟩ := ShiftRegister.exists_period twist_reversible (sequence_obeys g)
    (by decide) (by decide)
  refine ⟨p, hpos, fun n => ?_⟩
  -- a word behind the first of a window is known in full
  obtain ⟨-, hwords⟩ := hagree (g.mti + n - 1)
  have hword := hwords 1 (by decide) (by decide)
  rw [word_eq, word_eq, show g.mti + (n + p) = p + (g.mti + n - 1) + 1 by omega, hword]
  congr 2
  omega

/-- A generator that has been seeded. -/
theorem words_periodic_seed :
    let g : Mt19937 := Mt19937.seed ⟨.replicate 624 0, 624, Nat.le_refl 624⟩ 19650218
    ∃ p, 0 < p ∧ ∀ n, Rejection.word nextInt g (n + p) = Rejection.word nextInt g n :=
  words_periodic (show 0 < 624 by decide)

end Mt19937

end Codec

end Brickred
