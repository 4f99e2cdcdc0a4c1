import Mathlib.Data.List.Perm.Basic
import Brickred.Lib.BinaryHeap
import Brickred.Timer.TimerHeap

/-!
# The heap array of a `TimerHeap`

`Placed` says that the array points at timers that know their slots. Every
operation on the array keeps it, keeps the heap order, and changes nothing about
the timers but the slots they store (`SameTimers`).
-/

namespace Brickred

/-- The timer without the slot it stores. -/
def Timer.unplaced {C : Type} (t : Timer C) : Timer C := t.setHeapPos (-1)

namespace TimerHeap

variable {C : Type} {h h' : TimerHeap C} {a b : TimerPtr} {t : Timer C} {i j : Nat}

/-- Slot 0 is null, every other slot points at a timer that stores its slot. -/
structure Placed (h : TimerHeap C) : Prop where
  slotZero : h.timerMinHeap[0]? = some none
  slot : ∀ i, 0 < i → i < h.timerMinHeap.size →
    ∃ a t, h.slotPtr i = some a ∧ h.objects.cell a = some t ∧ t.heapPos = i

/-- The deadline of the timer in a slot. -/
def key (h : TimerHeap C) (i : Nat) : Int := ((h.slot i).map (·.timestamp.nanos)).getD 0

/-- No timer is earlier than its parent. -/
def Ordered (h : TimerHeap C) : Prop := BinaryHeap.Ordered (h.timerMinHeap.size - 1) h.key

/-- `h'` has the timers of `h`, up to the slots they store. -/
structure SameTimers (h h' : TimerHeap C) : Prop where
  allocator : h'.timerIdAllocator = h.timerIdAllocator
  timers : h'.timers = h.timers
  next : h'.objects.next = h.objects.next
  cell : ∀ a, (h'.objects.cell a).map Timer.unplaced = (h.objects.cell a).map Timer.unplaced

theorem SameTimers.refl (h : TimerHeap C) : SameTimers h h := ⟨rfl, rfl, rfl, fun _ => rfl⟩

theorem SameTimers.trans {h₁ h₂ h₃ : TimerHeap C} (h₁₂ : SameTimers h₁ h₂)
    (h₂₃ : SameTimers h₂ h₃) : SameTimers h₁ h₃ :=
  ⟨h₂₃.allocator.trans h₁₂.allocator, h₂₃.timers.trans h₁₂.timers, h₂₃.next.trans h₁₂.next,
    fun a => (h₂₃.cell a).trans (h₁₂.cell a)⟩

theorem SameTimers.exists_cell' (hs : SameTimers h h') (hc : h.objects.cell a = some t) :
    ∃ u, h'.objects.cell a = some u ∧ u.unplaced = t.unplaced := by
  have heq := hs.cell a
  rw [hc] at heq
  simpa using heq

/-! ## Slots -/

theorem slot_eq (hp : h.slotPtr i = some a) : h.slot i = h.objects.cell a := by
  rw [TimerHeap.slot, hp]
  rfl

theorem key_eq (hs : h.slot i = some t) : h.key i = t.timestamp.nanos := by
  rw [key, hs]
  rfl

theorem slotPtr_lt (hp : h.slotPtr i = some a) : i < h.timerMinHeap.size := by
  by_contra hge
  rw [slotPtr, Array.getElem?_eq_none (by omega)] at hp
  cases hp

theorem getElem_of_slotPtr (hp : h.slotPtr i = some a) : h.timerMinHeap[i]? = some (some a) :=
  Option.join_eq_some_iff.mp hp

namespace Placed

variable (hp : Placed h)
include hp

theorem size_pos : 0 < h.timerMinHeap.size := by
  by_contra hzero
  have h₀ := hp.slotZero
  rw [Array.getElem?_eq_none (by omega)] at h₀
  cases h₀

theorem pos_of_slotPtr (hs : h.slotPtr i = some a) : 0 < i := by
  rcases Nat.eq_zero_or_pos i with rfl | hpos
  · rw [slotPtr, hp.slotZero] at hs
    cases hs
  · exact hpos

/-- A timer in the array stores its slot. -/
theorem heapPos_eq (hs : h.slotPtr i = some a) (hc : h.objects.cell a = some t) :
    t.heapPos = i := by
  obtain ⟨b, u, hb, hu, hpos⟩ := hp.slot i (hp.pos_of_slotPtr hs) (slotPtr_lt hs)
  obtain rfl : a = b := Option.some.inj (hs.symm.trans hb)
  obtain rfl : t = u := Option.some.inj (hc.symm.trans hu)
  exact hpos

theorem cell_of_slotPtr (hs : h.slotPtr i = some a) : ∃ t, h.objects.cell a = some t := by
  obtain ⟨b, u, hb, hu, -⟩ := hp.slot i (hp.pos_of_slotPtr hs) (slotPtr_lt hs)
  exact ⟨u, Option.some.inj (hs.symm.trans hb) ▸ hu⟩

/-- No timer is in two slots. -/
theorem slotPtr_inj (hi : h.slotPtr i = some a) (hj : h.slotPtr j = some a) : i = j := by
  obtain ⟨t, ht⟩ := hp.cell_of_slotPtr hi
  have h₁ := hp.heapPos_eq hi ht
  have h₂ := hp.heapPos_eq hj ht
  omega

theorem exists_slot (hpos : 0 < i) (hlt : i < h.timerMinHeap.size) :
    ∃ t, h.slot i = some t := by
  obtain ⟨a, t, ha, ht, -⟩ := hp.slot i hpos hlt
  exact ⟨t, (slot_eq ha).trans ht⟩

end Placed

/-- `h'` has the timers of `h`, in the same slots or in other ones. -/
structure Reordered (h h' : TimerHeap C) : Prop where
  placed : Placed h'
  same : SameTimers h h'
  perm : h'.timerMinHeap.toList.Perm h.timerMinHeap.toList

theorem Reordered.refl (hp : Placed h) : Reordered h h := ⟨hp, .refl h, .refl _⟩

theorem Reordered.trans {h₁ h₂ h₃ : TimerHeap C} (h₁₂ : Reordered h₁ h₂)
    (h₂₃ : Reordered h₂ h₃) : Reordered h₁ h₃ :=
  ⟨h₂₃.placed, h₁₂.same.trans h₂₃.same, h₂₃.perm.trans h₁₂.perm⟩

theorem Reordered.size_eq (hr : Reordered h h') :
    h'.timerMinHeap.size = h.timerMinHeap.size := by
  simpa using hr.perm.length_eq

/-! ## Exchanging two timers -/

/-- The memory after two timers have stored their new slots. -/
theorem cell_setHeapPos₂ {m : ObjectHeap (Timer C)} {u : Timer C} {x y : Int} (hab : a ≠ b)
    (ha : m.cell a = some t) (hb : m.cell b = some u) :
    let m' := (m.update a (·.setHeapPos x)).update b (·.setHeapPos y)
    m'.cell a = some (t.setHeapPos x) ∧ m'.cell b = some (u.setHeapPos y) ∧
      ∀ c, c ≠ a → c ≠ b → m'.cell c = m.cell c := by
  refine ⟨?_, ?_, fun c hca hcb => ?_⟩
  · rw [ObjectHeap.cell_update_ne hab, ObjectHeap.cell_update_self ha]
  · exact ObjectHeap.cell_update_self ((ObjectHeap.cell_update_ne hab.symm).trans hb)
  · rw [ObjectHeap.cell_update_ne hcb, ObjectHeap.cell_update_ne hca]

/-- Storing a slot in a timer changes nothing else about it. -/
theorem unplaced_update (m : ObjectHeap (Timer C)) (a b : TimerPtr) (x : Int) :
    ((m.update a (·.setHeapPos x)).cell b).map Timer.unplaced =
      (m.cell b).map Timer.unplaced := by
  rw [ObjectHeap.cell_update]
  split
  · rw [Option.map_map]
    rfl
  · rfl

theorem setHeapPos_eq (hc : h.objects.cell a = some t) (x : Int) :
    h.setHeapPos a x = some { h with objects := h.objects.update a (·.setHeapPos x) } := by
  simp [setHeapPos, ObjectHeap.modify_eq hc]

theorem getElem?_swapIfInBounds {xs : Array (Option TimerPtr)} (hi : i < xs.size)
    (hj : j < xs.size) (k : Nat) : (xs.swapIfInBounds i j)[k]? =
      if j = k then xs[i]? else if i = k then xs[j]? else xs[k]? := by
  rw [Array.swapIfInBounds_def, dif_pos hi, dif_pos hj, Array.getElem?_swap,
    Array.getElem?_eq_getElem hi, Array.getElem?_eq_getElem hj]

theorem exchange_spec (hp : Placed h) (hi : 0 < i) (hil : i < h.timerMinHeap.size) (hj : 0 < j)
    (hjl : j < h.timerMinHeap.size) (hij : i ≠ j) :
    ∃ h', h.exchange i j = some h' ∧ Reordered h h' ∧
      h'.key i = h.key j ∧ h'.key j = h.key i ∧ ∀ k, k ≠ i → k ≠ j → h'.key k = h.key k := by
  obtain ⟨a, t, ha, ht, hta⟩ := hp.slot i hi hil
  obtain ⟨b, u, hb, hu, hub⟩ := hp.slot j hj hjl
  have hab : a ≠ b := by
    rintro rfl
    exact hij (hp.slotPtr_inj ha hb)
  set m := (h.objects.update a (·.setHeapPos j)).update b (·.setHeapPos i) with hm
  obtain ⟨hma, hmb, hmo⟩ := cell_setHeapPos₂ (x := j) (y := i) hab ht hu
  rw [← hm] at hma hmb hmo
  set h' : TimerHeap C :=
    { h with objects := m, timerMinHeap := h.timerMinHeap.swapIfInBounds i j } with hh'
  have hptr : ∀ k, h'.slotPtr k =
      if j = k then h.slotPtr i else if i = k then h.slotPtr j else h.slotPtr k := fun k => by
    rw [slotPtr, hh', getElem?_swapIfInBounds hil hjl, apply_ite Option.join, apply_ite Option.join]
    rfl
  have hsi : h'.slotPtr i = some b := by rw [hptr, if_neg (Ne.symm hij), if_pos rfl, hb]
  have hsj : h'.slotPtr j = some a := by rw [hptr, if_pos rfl, ha]
  have hso : ∀ k, k ≠ i → k ≠ j → h'.slotPtr k = h.slotPtr k := fun k hki hkj => by
    rw [hptr, if_neg (Ne.symm hkj), if_neg (Ne.symm hki)]
  have hcell : ∀ k c, k ≠ i → k ≠ j → h.slotPtr k = some c → m.cell c = h.objects.cell c := by
    intro k c hki hkj hc
    refine hmo c ?_ ?_
    · rintro rfl
      exact hki (hp.slotPtr_inj hc ha)
    · rintro rfl
      exact hkj (hp.slotPtr_inj hc hb)
  refine ⟨h', ?_, ⟨⟨?_, ?_⟩, ⟨rfl, rfl, rfl, ?_⟩, ?_⟩, ?_, ?_, ?_⟩
  · have hub' : (h.objects.update a (·.setHeapPos j)).cell b = some u :=
      (ObjectHeap.cell_update_ne hab.symm).trans hu
    have hb' : slotPtr { h with objects := h.objects.update a (·.setHeapPos j) } j = some b := hb
    simp only [exchange, ha, Option.bind_eq_bind, Option.bind_some, setHeapPos_eq ht, hb',
      setHeapPos_eq (h := { h with objects := h.objects.update a (·.setHeapPos j) }) hub']
    rfl
  · rw [hh', getElem?_swapIfInBounds hil hjl, if_neg (by omega), if_neg (by omega)]
    exact hp.slotZero
  · intro k hk hkl
    by_cases hki : k = i
    · exact ⟨b, _, hki ▸ hsi, hmb, hki ▸ rfl⟩
    · by_cases hkj : k = j
      · exact ⟨a, _, hkj ▸ hsj, hma, hkj ▸ rfl⟩
      · obtain ⟨c, v, hc, hv, hpos⟩ := hp.slot k hk (by simpa [hh'] using hkl)
        exact ⟨c, v, (hso k hki hkj).trans hc, (hcell k c hki hkj hc).trans hv, hpos⟩
  · intro c
    rw [hh', hm, unplaced_update, unplaced_update]
  · rw [hh', Array.swapIfInBounds_def, dif_pos hil, dif_pos hjl]
    exact (Array.swap_perm hil hjl).toList
  · rw [key_eq ((slot_eq hsi).trans hmb), key_eq ((slot_eq hb).trans hu)]
    rfl
  · rw [key_eq ((slot_eq hsj).trans hma), key_eq ((slot_eq ha).trans ht)]
    rfl
  · intro k hki hkj
    rw [key, key, slot, slot, hso k hki hkj]
    cases hc : h.slotPtr k with
    | none => rfl
    | some c => rw [Option.bind_some, Option.bind_some, ← hcell k c hki hkj hc]

/-! ## The shift loops -/

/-- Comparing two timers compares the keys of their slots. -/
theorem lt_iff_key {u : Timer C} (hi : h.slot i = some t) (hj : h.slot j = some u) :
    t.timestamp.lt u.timestamp = true ↔ h.key i < h.key j := by
  rw [Timestamp.lt_iff, key_eq hi, key_eq hj]

/-- A timer that may be too early for its parent is carried up into place. -/
theorem minHeapShiftUpLoop_spec : ∀ {fuel : Nat} {h : TimerHeap C} {c : Nat}, Placed h →
    0 < c → c < h.timerMinHeap.size → BinaryHeap.UpOrder (h.timerMinHeap.size - 1) h.key c →
    c < fuel → ∃ h', minHeapShiftUpLoop fuel h c = some h' ∧ Reordered h h' ∧ Ordered h'
  | 0, _, _, _, _, _, _, hfuel => absurd hfuel (Nat.not_lt_zero _)
  | fuel + 1, h, c, hp, hc, hcl, ho, hfuel => by
    rw [minHeapShiftUpLoop]
    by_cases hroot : c / 2 = 0
    · exact ⟨h, if_pos hroot, .refl hp, ho.done (.inl hroot)⟩
    · obtain ⟨t, ht⟩ := hp.exists_slot hc hcl
      obtain ⟨u, hu⟩ := hp.exists_slot (i := c / 2) (by omega) (by omega)
      have hlt := lt_iff_key ht hu
      simp only [if_neg hroot, ht, hu, Option.bind_eq_bind, Option.bind_some]
      by_cases hless : h.key c < h.key (c / 2)
      · -- exchange with the parent and go on from there
        obtain ⟨h₁, e₁, hr₁, hkp, hkc, hko⟩ :=
          exchange_spec hp (i := c / 2) (by omega) (by omega) hc hcl (by omega)
        have hsize := hr₁.size_eq
        have ho₁ : BinaryHeap.UpOrder (h₁.timerMinHeap.size - 1) h₁.key (c / 2) := by
          rw [hsize]
          exact ho.swap hroot (by omega) hless hkp hkc fun k hk hk' => hko k hk' hk
        have hfuel₁ : c / 2 < fuel := by omega
        obtain ⟨h₂, e₂, hr₂, ho₂⟩ := minHeapShiftUpLoop_spec hr₁.placed (by omega) (by omega)
          ho₁ hfuel₁
        rw [if_pos (hlt.mpr hless), e₁, Option.bind_some, e₂]
        exact ⟨h₂, rfl, hr₁.trans hr₂, ho₂⟩
      · rw [if_neg fun hcon => hless (hlt.mp hcon)]
        exact ⟨h, rfl, .refl hp, ho.done (.inr hless)⟩

theorem minHeapShiftUp_spec {c : Nat} (hp : Placed h) (hc : 0 < c)
    (hcl : c < h.timerMinHeap.size)
    (ho : BinaryHeap.UpOrder (h.timerMinHeap.size - 1) h.key c) :
    ∃ h', h.minHeapShiftUp c = some h' ∧ Reordered h h' ∧ Ordered h' :=
  minHeapShiftUpLoop_spec hp hc hcl ho (by omega)

/-- The child the downward loop looks at is the earlier one. -/
theorem lesserChild_spec {c : Nat} (hp : Placed h) (hc : 0 < c)
    (hcl : c * 2 < h.timerMinHeap.size) :
    ∃ d, h.lesserChild (c * 2) = some d ∧ d / 2 = c ∧ d < h.timerMinHeap.size ∧
      ∀ i, i ≤ h.timerMinHeap.size - 1 → i / 2 = c → h.key d ≤ h.key i := by
  unfold lesserChild
  by_cases hright : c * 2 + 1 < h.timerMinHeap.size
  · obtain ⟨r, hr⟩ := hp.exists_slot (i := c * 2 + 1) (by omega) hright
    obtain ⟨l, hl⟩ := hp.exists_slot (i := c * 2) (by omega) hcl
    have hlt := lt_iff_key hr hl
    simp only [if_pos hright, hr, hl, Option.bind_eq_bind, Option.bind_some]
    by_cases hless : h.key (c * 2 + 1) < h.key (c * 2)
    · refine ⟨_, rfl, ?_⟩
      rw [if_pos (hlt.mpr hless)]
      refine ⟨by omega, hright, fun i _ hi => ?_⟩
      obtain rfl | rfl : i = c * 2 ∨ i = c * 2 + 1 := by omega
      · exact hless.le
      · exact le_rfl
    · refine ⟨_, rfl, ?_⟩
      rw [if_neg fun hcon => hless (hlt.mp hcon)]
      refine ⟨by omega, hcl, fun i _ hi => ?_⟩
      obtain rfl | rfl : i = c * 2 ∨ i = c * 2 + 1 := by omega
      · exact le_rfl
      · exact not_lt.mp hless
  · refine ⟨c * 2, if_neg hright, by omega, hcl, fun i hil hi => ?_⟩
    obtain rfl : i = c * 2 := by omega
    exact le_rfl

/-- A timer that may be too late for its children is carried down into place. -/
theorem minHeapShiftDownLoop_spec : ∀ {fuel : Nat} {h : TimerHeap C} {c : Nat}, Placed h →
    0 < c → c < h.timerMinHeap.size → BinaryHeap.DownOrder (h.timerMinHeap.size - 1) h.key c →
    h.timerMinHeap.size < c + fuel →
    ∃ h', minHeapShiftDownLoop fuel h c = some h' ∧ Reordered h h' ∧ Ordered h'
  | 0, _, _, _, _, hcl, _, hfuel => absurd hfuel (by omega)
  | fuel + 1, h, c, hp, hc, hcl, ho, hfuel => by
    rw [minHeapShiftDownLoop]
    by_cases hleaf : c * 2 ≥ h.timerMinHeap.size
    · exact ⟨h, if_pos hleaf, .refl hp, ho.done fun i _ hil hi => absurd hi (by omega)⟩
    · obtain ⟨d, hd, hdc, hdl, hmin⟩ := lesserChild_spec hp hc (Nat.lt_of_not_le hleaf)
      obtain ⟨t, ht⟩ := hp.exists_slot (i := d) (by omega) hdl
      obtain ⟨u, hu⟩ := hp.exists_slot hc hcl
      have hlt := lt_iff_key ht hu
      simp only [if_neg hleaf, hd, ht, hu, Option.bind_eq_bind, Option.bind_some]
      by_cases hless : h.key d < h.key c
      · -- exchange with the earlier child and go on from there
        obtain ⟨h₁, e₁, hr₁, hkc, hkd, hko⟩ :=
          exchange_spec hp hc hcl (j := d) (by omega) hdl (by omega)
        have hsize := hr₁.size_eq
        have ho₁ : BinaryHeap.DownOrder (h₁.timerMinHeap.size - 1) h₁.key d := by
          rw [hsize]
          exact ho.swap hc hdc (by omega) hless hmin hkc hkd hko
        have hfuel₁ : h₁.timerMinHeap.size < d + fuel := by omega
        obtain ⟨h₂, e₂, hr₂, ho₂⟩ := minHeapShiftDownLoop_spec hr₁.placed (by omega) (by omega)
          ho₁ hfuel₁
        rw [if_pos (hlt.mpr hless), e₁, Option.bind_some, e₂]
        exact ⟨h₂, rfl, hr₁.trans hr₂, ho₂⟩
      · rw [if_neg fun hcon => hless (hlt.mp hcon)]
        refine ⟨h, rfl, .refl hp, ho.done fun i _ hil hi hcon => ?_⟩
        exact hless (lt_of_le_of_lt (hmin i hil hi) hcon)

theorem minHeapShiftDown_spec {c : Nat} (hp : Placed h) (hc : 0 < c)
    (hcl : c < h.timerMinHeap.size)
    (ho : BinaryHeap.DownOrder (h.timerMinHeap.size - 1) h.key c) :
    ∃ h', h.minHeapShiftDown c = some h' ∧ Reordered h h' ∧ Ordered h' :=
  minHeapShiftDownLoop_spec hp hc hcl ho (by omega)

/-! ## Inserting -/

/-- `minHeapInsert` puts a timer into the array that was not in it. -/
theorem minHeapInsert_spec (hp : Placed h) (ho : Ordered h) (ha : h.objects.cell a = some t)
    (hnew : some a ∉ h.timerMinHeap.toList) :
    ∃ h', h.minHeapInsert a = some h' ∧ Placed h' ∧ Ordered h' ∧ SameTimers h h' ∧
      h'.timerMinHeap.toList.Perm (some a :: h.timerMinHeap.toList) := by
  set n := h.timerMinHeap.size with hn
  have hpos := hp.size_pos
  set h₁ : TimerHeap C := { h with
    timerMinHeap := h.timerMinHeap.push (some a)
    objects := h.objects.update a (·.setHeapPos n) } with hh₁
  have hsize : h₁.timerMinHeap.size = n + 1 := by simp [hh₁, hn]
  have hlast : h₁.slotPtr n = some a := by simp [slotPtr, hh₁, hn]
  have hptr : ∀ i, i < n → h₁.slotPtr i = h.slotPtr i := fun i hi => by
    simp [slotPtr, hh₁, Array.getElem?_push, Nat.ne_of_lt hi, ← hn]
  have hne : ∀ {i c}, h.slotPtr i = some c → c ≠ a := by
    rintro i c hc rfl
    exact hnew (Array.mem_toList_iff.mpr (Array.mem_of_getElem? (getElem_of_slotPtr hc)))
  have hslot : ∀ i, i < n → h₁.slot i = h.slot i := fun i hi => by
    rw [slot, slot, hptr i hi]
    cases hc : h.slotPtr i with
    | none => rfl
    | some c => exact ObjectHeap.cell_update_ne (hne hc)
  have hp₁ : Placed h₁ := by
    refine ⟨?_, fun i hi hil => ?_⟩
    · rw [hh₁, Array.getElem?_push, if_neg (by omega)]
      exact hp.slotZero
    · by_cases hin : i = n
      · exact ⟨a, _, hin ▸ hlast, ObjectHeap.cell_update_self ha, hin ▸ rfl⟩
      · obtain ⟨c, u, hc, hu, hcu⟩ := hp.slot i hi (by omega)
        exact ⟨c, u, (hptr i (by omega)).trans hc,
          (ObjectHeap.cell_update_ne (hne hc)).trans hu, hcu⟩
  have ho₁ : BinaryHeap.UpOrder (h₁.timerMinHeap.size - 1) h₁.key n := by
    have hold : BinaryHeap.Ordered (n - 1) h₁.key := ho.congr fun i _ hi => by
      rw [key, key, hslot i (by omega)]
    have hpush := hold.push
    rw [show h₁.timerMinHeap.size - 1 = n by omega]
    rwa [Nat.sub_add_cancel hpos] at hpush
  have hs₁ : SameTimers h h₁ := ⟨rfl, rfl, rfl, fun c => unplaced_update h.objects a c n⟩
  obtain ⟨h₂, e₂, hr₂, ho₂⟩ := minHeapShiftUp_spec hp₁ hpos (by omega) ho₁
  refine ⟨h₂, ?_, hr₂.placed, ho₂, hs₁.trans hr₂.same, ?_⟩
  · have e₁ := setHeapPos_eq (h := { h with timerMinHeap := h.timerMinHeap.push (some a) }) ha n
    simp only [minHeapInsert, ← hn, e₁, Option.bind_eq_bind, Option.bind_some]
    exact e₂
  · refine hr₂.perm.trans ?_
    rw [hh₁, Array.toList_push]
    exact List.perm_append_singleton (some a) _

/-! ## Erasing -/

/-- Dropping the last element after it has been written over another one takes
that one out. -/
theorem perm_set_dropLast {α : Type} {x b : α} {l : List α} {c : Nat}
    (hx : (l ++ [b])[c]? = some x) : (x :: ((l ++ [b]).set c b).dropLast).Perm (l ++ [b]) := by
  by_cases hc : c < l.length
  · rw [List.getElem?_append_left hc, List.getElem?_eq_getElem hc, Option.some.injEq] at hx
    rw [List.set_append_left _ _ hc, List.dropLast_concat]
    have hset : (l.set c b).Perm (b :: l.eraseIdx c) := List.set_perm_cons_eraseIdx hc b
    have hl : (x :: l.eraseIdx c).Perm l := hx ▸ List.getElem_cons_eraseIdx_perm hc
    calc List.Perm (x :: l.set c b) (x :: b :: l.eraseIdx c) := hset.cons x
      List.Perm _ (b :: x :: l.eraseIdx c) := .swap b x _
      List.Perm _ (b :: l) := hl.cons b
      List.Perm _ (l ++ [b]) := (List.perm_append_singleton b l).symm
  · -- the erased element is the last one itself
    have hlt : c < (l ++ [b]).length := (List.getElem?_eq_some_iff.mp hx).1
    obtain rfl : c = l.length := by
      simp at hlt
      omega
    obtain rfl : b = x := by simpa using hx
    simpa using (List.perm_append_singleton b l).symm

/-- The array when the last timer has been written to slot `c` and the last slot
dropped. -/
theorem minHeapErase_array {xs : Array (Option TimerPtr)} {c n : Nat} (hn : xs.size = n + 1)
    (b : Option TimerPtr) :
    (xs.setIfInBounds c b).pop.size = n ∧
      ∀ i, i < n → (xs.setIfInBounds c b).pop[i]? = if c = i then some b else xs[i]? := by
  refine ⟨by simp [hn], fun i hi => ?_⟩
  rw [Array.getElem?_pop, if_pos (by simpa [hn] using hi), Array.getElem?_setIfInBounds]
  by_cases hc : c = i
  · rw [if_pos hc, if_pos hc, if_pos (by omega)]
  · rw [if_neg hc, if_neg hc]

/-- Restoring the order around the slot that got the last timer. -/
theorem minHeapRestore_spec {c : Nat} (hp : Placed h) (hc : 0 < c)
    {k : Nat → Int} (ho : BinaryHeap.Ordered h.timerMinHeap.size k)
    (heq : ∀ i, i < h.timerMinHeap.size → i ≠ c → h.key i = k i) :
    ∃ h', h.minHeapRestore c = some h' ∧ Reordered h h' ∧ Ordered h' := by
  have hpos := hp.size_pos
  unfold minHeapRestore
  by_cases hend : c ≥ h.timerMinHeap.size
  · -- the erased timer was the last one
    refine ⟨h, if_pos hend, .refl hp, fun i hi hil => ?_⟩
    rw [heq i (by omega) (by omega), heq (i / 2) (by omega) (by omega)]
    exact ho i hi (by omega)
  · rw [if_neg hend]
    have hcl : c < h.timerMinHeap.size := Nat.lt_of_not_le hend
    have ho' : BinaryHeap.Ordered (h.timerMinHeap.size - 1 + 1) k := by
      rwa [Nat.sub_add_cancel hpos]
    have heq' : ∀ i, i ≤ h.timerMinHeap.size - 1 → i ≠ c → h.key i = k i := fun i hi =>
      heq i (by omega)
    have hup : h.beforeParent c = some (decide (1 < c ∧ h.key c < h.key (c / 2))) := by
      unfold beforeParent
      by_cases h1 : c / 2 > 0
      · obtain ⟨t, ht⟩ := hp.exists_slot hc hcl
        obtain ⟨u, hu⟩ := hp.exists_slot (i := c / 2) h1 (by omega)
        have hlt := lt_iff_key ht hu
        simp only [if_pos h1, ht, hu, Option.bind_eq_bind, Option.bind_some, Option.some.injEq]
        rw [Bool.eq_iff_iff, hlt, decide_eq_true_iff]
        exact ⟨fun hl => ⟨by omega, hl⟩, fun hl => hl.2⟩
      · rw [if_neg h1, decide_eq_false]
        omega
    rw [hup, Option.bind_eq_bind, Option.bind_some]
    by_cases hless : 1 < c ∧ h.key c < h.key (c / 2)
    · rw [decide_eq_true hless, if_pos rfl]
      exact minHeapShiftUp_spec hp hc hcl (ho'.replace_up hless.1 heq' hless.2)
    · rw [decide_eq_false hless, if_neg Bool.false_ne_true]
      exact minHeapShiftDown_spec hp hc hcl
        (ho'.replace_down heq' fun h1 hlt => hless ⟨h1, hlt⟩)

/-- `minHeapErase` takes a timer that is in the array out of it. -/
theorem minHeapErase_spec (hp : Placed h) (ho : Ordered h)
    (hmem : some a ∈ h.timerMinHeap.toList) :
    ∃ h', h.minHeapErase a = some h' ∧ Placed h' ∧ Ordered h' ∧ SameTimers h h' ∧
      (some a :: h'.timerMinHeap.toList).Perm h.timerMinHeap.toList := by
  -- the slot the timer stores, and the last slot
  obtain ⟨c, hac⟩ : ∃ c, h.slotPtr c = some a := by
    obtain ⟨c, hc⟩ := List.mem_iff_getElem?.mp hmem
    exact ⟨c, by rw [slotPtr, ← Array.getElem?_toList, hc]; rfl⟩
  obtain ⟨t, ht⟩ := hp.cell_of_slotPtr hac
  have hct := hp.heapPos_eq hac ht
  have hc := hp.pos_of_slotPtr hac
  have hcl := slotPtr_lt hac
  obtain ⟨n, hn⟩ : ∃ n, h.timerMinHeap.size = n + 1 := ⟨_, (Nat.sub_add_cancel hp.size_pos).symm⟩
  obtain ⟨b, u, hb, hu, hbn⟩ := hp.slot n (by omega) (by omega)
  -- the array and the memory before the order is restored
  set m := (h.objects.update a (·.setHeapPos (-1))).update b (·.setHeapPos c) with hm
  set h₁ : TimerHeap C := { h with
    timerMinHeap := (h.timerMinHeap.setIfInBounds c (some b)).pop
    objects := m } with hh₁
  obtain ⟨hsize, helem⟩ := minHeapErase_array (c := c) hn (some b)
  have hptr : ∀ i, i < n → h₁.slotPtr i = if c = i then some b else h.slotPtr i := by
    intro i hi
    rw [slotPtr, hh₁, helem i hi, apply_ite Option.join]
    rfl
  have hptr' : ∀ i, i < n → i ≠ c → h₁.slotPtr i = h.slotPtr i := fun i hi hic => by
    rw [hptr i hi, if_neg (Ne.symm hic)]
  have hcell : ∀ i d, i < n → i ≠ c → h.slotPtr i = some d → m.cell d = h.objects.cell d := by
    intro i d hi hic hd
    have hda : d ≠ a := by
      rintro rfl
      exact hic (hp.slotPtr_inj hd hac)
    have hdb : d ≠ b := by
      rintro rfl
      exact Nat.ne_of_lt hi (hp.slotPtr_inj hd hb)
    rw [hm, ObjectHeap.cell_update_ne hdb, ObjectHeap.cell_update_ne hda]
  have hp₁ : Placed h₁ := by
    refine ⟨?_, fun i hi hil => ?_⟩
    · rw [hh₁, helem 0 (by omega), if_neg (by omega)]
      exact hp.slotZero
    · have hin : i < n := hsize ▸ hil
      by_cases hic : i = c
      · have hba : b ≠ a := by
          rintro rfl
          exact Nat.ne_of_lt hin (hic.trans (hp.slotPtr_inj hac hb))
        refine ⟨b, u.setHeapPos c, by rw [hptr i hin, if_pos hic.symm], ?_, hic ▸ rfl⟩
        exact ObjectHeap.cell_update_self ((ObjectHeap.cell_update_ne hba).trans hu)
      · obtain ⟨d, w, hd, hw, hwi⟩ := hp.slot i hi (by omega)
        exact ⟨d, w, (hptr' i hin hic).trans hd, (hcell i d hin hic hd).trans hw, hwi⟩
  have hkey : ∀ i, i < h₁.timerMinHeap.size → i ≠ c → h₁.key i = h.key i := by
    intro i hi hic
    rw [key, key, slot, slot, hptr' i (hsize ▸ hi) hic]
    cases hd : h.slotPtr i with
    | none => rfl
    | some d => rw [Option.bind_some, Option.bind_some, ← hcell i d (hsize ▸ hi) hic hd]
  obtain ⟨h₂, e₂, hr₂, ho₂⟩ := minHeapRestore_spec hp₁ hc (k := h.key) (by
    rw [show h₁.timerMinHeap.size = h.timerMinHeap.size - 1 by rw [hn]; exact hsize]
    exact ho) hkey
  have hs₁ : SameTimers h h₁ := ⟨rfl, rfl, rfl, fun d => by
    rw [hh₁, hm, unplaced_update, unplaced_update]⟩
  refine ⟨h₂, ?_, hr₂.placed, ho₂, hs₁.trans hr₂.same, ?_⟩
  · have hback : h.timerMinHeap.back? = some (some b) := by
      rw [Array.back?_eq_getElem?, hn, Nat.add_sub_cancel]
      exact getElem_of_slotPtr hb
    obtain ⟨w, hw⟩ : ∃ w, (h.objects.update a (·.setHeapPos (-1))).cell b = some w := by
      by_cases hba : b = a
      · subst hba
        exact ⟨_, ObjectHeap.cell_update_self ht⟩
      · exact ⟨u, (ObjectHeap.cell_update_ne hba).trans hu⟩
    have hmid : slotPtr { h with
        objects := h.objects.update a (·.setHeapPos (-1))
        timerMinHeap := h.timerMinHeap.setIfInBounds c (some b) } c = some b := by
      rw [slotPtr, Array.getElem?_setIfInBounds_self_of_lt hcl]
      rfl
    have e₁ := setHeapPos_eq (h := { h with
        objects := h.objects.update a (·.setHeapPos (-1))
        timerMinHeap := h.timerMinHeap.setIfInBounds c (some b) }) hw c
    simp only [minHeapErase, ht, Option.bind_eq_bind, Option.bind_some, hct,
      if_neg (Int.not_lt.mpr (Int.natCast_nonneg c)), setHeapPos_eq ht, hback, Int.toNat_natCast,
      hmid, e₁]
    exact e₂
  · obtain ⟨L, x, hL⟩ : ∃ L x, h.timerMinHeap.toList = L ++ [x] := by
      rcases List.eq_nil_or_concat' h.timerMinHeap.toList with hnil | hcons
      · rw [hnil] at hmem
        cases hmem
      · exact hcons
    have hlen : L.length = n := by
      have hlength := congrArg List.length hL
      simpa [hn] using hlength.symm
    obtain rfl : x = some b := by
      have hx := getElem_of_slotPtr hb
      rw [← Array.getElem?_toList, hL, ← hlen] at hx
      simpa using hx
    have hx : (L ++ [some b])[c]? = some (some a) := by
      rw [← hL, Array.getElem?_toList]
      exact getElem_of_slotPtr hac
    have hlist : h₁.timerMinHeap.toList = ((L ++ [some b]).set c (some b)).dropLast := by
      rw [hh₁, Array.toList_pop, Array.toList_setIfInBounds, hL]
    rw [hL]
    exact (hr₂.perm.cons _).trans (hlist ▸ perm_set_dropLast hx)

end TimerHeap

end Brickred
