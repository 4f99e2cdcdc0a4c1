import Mathlib.Data.List.Nodup
import Brickred.Timer.HeapOps

/-!
# The invariant of a `TimerHeap`

`Inv` adds to the heap order that the id map and the array hold the same timers.
Each operation keeps it, and is described by what it does to the timers in the
heap as a collection (`entries`), without slots or addresses: `addTimer` adds
one, `removeTimer` takes one out, a turn of `checkTimeout` takes out the earliest
one and, unless it was on its last call, puts it back at its next deadline.
-/

namespace Brickred

namespace TimerHeap

variable {C : Type} {h h' : TimerHeap C} {a b : TimerPtr} {t u : Timer C} {id : Int}

/-- The id map leads to timers that have their key as id, and to every timer. -/
structure Bound (h : TimerHeap C) : Prop where
  id_eq : ∀ id a, h.timers id = some a → ∃ t, h.objects.cell a = some t ∧ t.id = id
  live : ∀ a t, h.objects.cell a = some t → h.timers t.id = some a

/-- The invariant between operations. -/
structure Inv (h : TimerHeap C) : Prop where
  placed : Placed h
  ordered : Ordered h
  bound : Bound h
  mem_iff : ∀ a, some a ∈ h.timerMinHeap.toList ↔ ∃ id, h.timers id = some a

/-- The timers in the heap, in the order of the slots. -/
def entries (h : TimerHeap C) : List (Timer C) :=
  h.timerMinHeap.toList.filterMap fun p => (p.bind h.objects.cell).map Timer.unplaced

/-! ## Frame rules -/

/-- Ids do not change, so neither does what the map leads to. -/
theorem Bound.congr (hb : Bound h) (ht : h'.timers = h.timers)
    (hc : ∀ a, (h'.objects.cell a).map Timer.id = (h.objects.cell a).map Timer.id) :
    Bound h' := by
  constructor
  · intro id a ha
    obtain ⟨t, hta, htid⟩ := hb.id_eq id a (ht ▸ ha)
    have heq := hc a
    rw [hta] at heq
    obtain ⟨u, hu, hut⟩ : ∃ u, h'.objects.cell a = some u ∧ u.id = t.id := by simpa using heq
    exact ⟨u, hu, hut.trans htid⟩
  · intro a u hu
    have heq := hc a
    rw [hu] at heq
    obtain ⟨t, hta, htid⟩ : ∃ t, h.objects.cell a = some t ∧ t.id = u.id := by
      simpa [eq_comm] using heq
    rw [ht, ← htid]
    exact hb.live a t hta

theorem SameTimers.map_id (hs : SameTimers h h') (a : TimerPtr) :
    (h'.objects.cell a).map Timer.id = (h.objects.cell a).map Timer.id := by
  have heq := congrArg (Option.map Timer.id) (hs.cell a)
  rwa [Option.map_map, Option.map_map] at heq

/-- Only the timers the array points at matter to it. -/
theorem agree (h h' : TimerHeap C) (harr : h'.timerMinHeap = h.timerMinHeap)
    (hc : ∀ a, some a ∈ h.timerMinHeap.toList → h'.objects.cell a = h.objects.cell a) :
    (Placed h → Placed h') ∧ h'.key = h.key ∧ h'.entries = h.entries := by
  have hptr : ∀ i, h'.slotPtr i = h.slotPtr i := fun i => by rw [slotPtr, slotPtr, harr]
  have hcell : ∀ i a, h.slotPtr i = some a → h'.objects.cell a = h.objects.cell a := by
    intro i a hi
    exact hc a (Array.mem_toList_iff.mpr (Array.mem_of_getElem? (getElem_of_slotPtr hi)))
  refine ⟨fun hp => ⟨harr ▸ hp.slotZero, fun i hi hil => ?_⟩, funext fun i => ?_, ?_⟩
  · obtain ⟨a, t, ha, ht, hpos⟩ := hp.slot i hi (harr ▸ hil)
    exact ⟨a, t, (hptr i).trans ha, (hcell i a ha).trans ht, hpos⟩
  · rw [key, key, slot, slot, hptr i]
    cases ha : h.slotPtr i with
    | none => rfl
    | some a => rw [Option.bind_some, Option.bind_some, hcell i a ha]
  · rw [entries, entries, harr]
    refine List.filterMap_congr fun p hp => ?_
    cases p with
    | none => rfl
    | some a => rw [Option.bind_some, Option.bind_some, hc a hp]

theorem Ordered.agree (ho : Ordered h) (harr : h'.timerMinHeap = h.timerMinHeap)
    (hkey : h'.key = h.key) : Ordered h' := by
  rw [Ordered, hkey, harr]
  exact ho

/-- Slots do not matter to the collection of timers. -/
theorem SameTimers.entries_perm (hs : SameTimers h h')
    {l : List (Option TimerPtr)} (hp : h'.timerMinHeap.toList.Perm l) :
    h'.entries.Perm (l.filterMap fun p => (p.bind h.objects.cell).map Timer.unplaced) := by
  have hfun : (fun p : Option TimerPtr => (p.bind h'.objects.cell).map Timer.unplaced) =
      fun p => (p.bind h.objects.cell).map Timer.unplaced := by
    funext p
    cases p with
    | none => rfl
    | some a => exact hs.cell a
  rw [entries, hfun]
  exact hp.filterMap _

/-- No timer is in the array twice. -/
theorem Placed.nodup (hp : Placed h) : h.timerMinHeap.toList.Nodup := by
  rw [List.nodup_iff_getElem?_ne_getElem?]
  intro i j hij hjl heq
  rw [Array.getElem?_toList, Array.getElem?_toList] at heq
  have hj : j < h.timerMinHeap.size := by simpa using hjl
  obtain ⟨a, t, ha, -, -⟩ := hp.slot j (by omega) hj
  have hi : h.slotPtr i = some a := by rw [slotPtr, heq]; exact ha
  exact Nat.ne_of_lt hij (hp.slotPtr_inj hi ha)

/-! ## Timers in the collection -/

/-- The entry of a timer that the array points at. -/
theorem mem_entries : t ∈ h.entries ↔
    ∃ a u, some a ∈ h.timerMinHeap.toList ∧ h.objects.cell a = some u ∧ u.unplaced = t := by
  rw [entries, List.mem_filterMap]
  constructor
  · rintro ⟨p, hp, ht⟩
    cases p with
    | none => simp at ht
    | some a =>
      obtain ⟨u, hu, hut⟩ : ∃ u, h.objects.cell a = some u ∧ u.unplaced = t := by simpa using ht
      exact ⟨a, u, hp, hu, hut⟩
  · rintro ⟨a, u, ha, hu, rfl⟩
    exact ⟨some a, ha, by rw [Option.bind_some, hu]; rfl⟩

namespace Inv

variable (hi : Inv h)
include hi

/-- The id map and the collection of timers agree. -/
theorem timers_ne_none_iff : h.timers id ≠ none ↔ ∃ t ∈ h.entries, t.id = id := by
  constructor
  · intro hne
    obtain ⟨a, ha⟩ := Option.ne_none_iff_exists'.mp hne
    obtain ⟨t, ht, hid⟩ := hi.bound.id_eq id a ha
    exact ⟨t.unplaced, mem_entries.mpr ⟨a, t, (hi.mem_iff a).mpr ⟨id, ha⟩, ht, rfl⟩, hid⟩
  · rintro ⟨t, ht, rfl⟩
    obtain ⟨a, u, -, hu, rfl⟩ := mem_entries.mp ht
    rw [show u.unplaced.id = u.id from rfl, hi.bound.live a u hu]
    exact Option.some_ne_none a

/-- A timer of the id map is in the array. -/
theorem mem_of_timers (ha : h.timers id = some a) : some a ∈ h.timerMinHeap.toList :=
  (hi.mem_iff a).mpr ⟨id, ha⟩

end Inv

/-- A new heap is empty. -/
theorem inv_init : Inv (init : TimerHeap C) where
  placed := ⟨rfl, fun i hi hil => absurd hil (by simp [init]; omega)⟩
  ordered i hi hil := absurd hil (by simp [init]; omega)
  bound := ⟨(fun id a ha => nomatch ha), (fun a t ht => nomatch ht)⟩
  mem_iff a := by simp [init]

/-! ## Taking a timer out of the array -/

/-- `h'` is `h` after the timer at `a` has been taken out of the array. -/
structure Taken (h h' : TimerHeap C) (a : TimerPtr) : Prop where
  placed : Placed h'
  ordered : Ordered h'
  same : SameTimers h h'
  perm : (some a :: h'.timerMinHeap.toList).Perm h.timerMinHeap.toList

theorem Inv.take_spec (hi : Inv h) (ha : some a ∈ h.timerMinHeap.toList) :
    ∃ h', h.minHeapErase a = some h' ∧ Taken h h' a := by
  obtain ⟨h', e, hp, ho, hs, hperm⟩ := minHeapErase_spec hi.placed hi.ordered ha
  exact ⟨h', e, hp, ho, hs, hperm⟩

namespace Taken

variable (hk : Taken h h' a) (hi : Inv h)
include hk hi

theorem not_mem : some a ∉ h'.timerMinHeap.toList :=
  (List.nodup_cons.mp (hk.perm.nodup_iff.mpr hi.placed.nodup)).1

omit hi in
theorem mem_iff (hb : b ≠ a) :
    some b ∈ h'.timerMinHeap.toList ↔ some b ∈ h.timerMinHeap.toList := by
  rw [← hk.perm.mem_iff, List.mem_cons, Option.some.injEq, or_iff_right hb]

omit hi in
theorem entries_perm (ht : h.objects.cell a = some t) :
    (t.unplaced :: h'.entries).Perm h.entries := by
  have hperm := hk.perm.filterMap fun p => (p.bind h.objects.cell).map Timer.unplaced
  rw [List.filterMap_cons_some (b := t.unplaced) (by rw [Option.bind_some, ht]; rfl)] at hperm
  exact ((hk.same.entries_perm (.refl _)).cons _).trans hperm

/-- Deleting the timer after it has been taken out. -/
theorem delete_spec (hid : h.timers id = some a) :
    ∃ h₂, (h'.setTimers id none).delete a = some h₂ ∧ Inv h₂ ∧ h₂.entries = h'.entries := by
  obtain ⟨t, ht, htid⟩ := hi.bound.id_eq id a hid
  obtain ⟨u, hu, hut⟩ := hk.same.exists_cell' ht
  have huid : u.id = id := (congrArg Timer.id hut).trans htid
  have hb : Bound h' := hi.bound.congr hk.same.timers hk.same.map_id
  have hid' : h'.timers id = some a := by rw [hk.same.timers, hid]
  set h₂ : TimerHeap C := { h'.setTimers id none with objects := h'.objects.remove a } with hh₂
  have hcell : ∀ b, b ≠ a → h₂.objects.cell b = h'.objects.cell b := fun b hba => if_neg hba
  obtain ⟨hplaced, hkey, hent⟩ := agree h' h₂ rfl fun b hb =>
    hcell b (by
      rintro rfl
      exact hk.not_mem hi hb)
  refine ⟨h₂, ?_, ⟨hplaced hk.placed, hk.ordered.agree rfl hkey, ⟨?_, ?_⟩, ?_⟩, hent⟩
  · have hfree : (h'.setTimers id none).objects.free a = some (h'.objects.remove a) := by
      rw [ObjectHeap.free, show (h'.setTimers id none).objects.cell a = some u from hu]
      rfl
    rw [delete, hfree]
    rfl
  · intro id' b hb'
    have hne : id' ≠ id := by
      rintro rfl
      simp [hh₂, setTimers] at hb'
    have hold : h'.timers id' = some b := by simpa [hh₂, setTimers, hne] using hb'
    obtain ⟨v, hv, hvid⟩ := hb.id_eq id' b hold
    refine ⟨v, (hcell b ?_).trans hv, hvid⟩
    rintro rfl
    obtain rfl : v = u := Option.some.inj (hv.symm.trans hu)
    exact hne (hvid.symm.trans huid)
  · intro b v hv
    have hba : b ≠ a := by
      rintro rfl
      simp [hh₂, ObjectHeap.remove] at hv
    have hold := hb.live b v ((hcell b hba).symm.trans hv)
    have hne : v.id ≠ id := by
      intro heq
      rw [heq, hid'] at hold
      exact hba (Option.some.inj hold).symm
    simpa [hh₂, setTimers, hne] using hold
  · intro b
    have harr : h₂.timerMinHeap = h'.timerMinHeap := rfl
    rw [harr]
    by_cases hba : b = a
    · subst hba
      refine ⟨fun hmem => absurd hmem (hk.not_mem hi), ?_⟩
      rintro ⟨id', hb'⟩
      have hne : id' ≠ id := by
        rintro rfl
        simp [hh₂, setTimers] at hb'
      have hold : h'.timers id' = some b := by simpa [hh₂, setTimers, hne] using hb'
      obtain ⟨v, hv, hvid⟩ := hb.id_eq id' b hold
      obtain rfl : v = u := Option.some.inj (hv.symm.trans hu)
      exact absurd (hvid.symm.trans huid) hne
    · rw [hk.mem_iff hba, hi.mem_iff b]
      refine exists_congr fun id' => ?_
      by_cases hne : id' = id
      · subst hne
        simp [hh₂, setTimers, hid, Ne.symm hba]
      · simp [hh₂, setTimers, hne, hk.same.timers]

/-- Putting the timer back at its next deadline. -/
theorem reinsert_spec (ht : h.objects.cell a = some t) :
    ∃ m h₂, h'.objects.modify a Timer.next = some m ∧
      minHeapInsert { h' with objects := m } a = some h₂ ∧ Inv h₂ ∧
      h₂.entries.Perm (t.unplaced.next :: h'.entries) := by
  obtain ⟨u, hu, hut⟩ := hk.same.exists_cell' ht
  set m := h'.objects.update a Timer.next with hm
  have hma : m.cell a = some u.next := ObjectHeap.cell_update_self hu
  have hcell : ∀ b, b ≠ a → m.cell b = h'.objects.cell b := fun b hb =>
    ObjectHeap.cell_update_ne hb
  set h₁ : TimerHeap C := { h' with objects := m } with hh₁
  obtain ⟨hplaced, hkey, hent⟩ := agree h' h₁ rfl fun b hb =>
    hcell b (by
      rintro rfl
      exact hk.not_mem hi hb)
  have hb₁ : Bound h₁ := by
    refine (hi.bound.congr hk.same.timers hk.same.map_id).congr rfl fun b => ?_
    by_cases hba : b = a
    · subst hba
      rw [show h₁.objects.cell b = some u.next from hma, hu]
      rfl
    · rw [show h₁.objects.cell b = h'.objects.cell b from hcell b hba]
  obtain ⟨h₂, e₂, hp₂, ho₂, hs₂, hperm₂⟩ := minHeapInsert_spec (h := h₁) (hplaced hk.placed)
    (hk.ordered.agree rfl hkey) hma (hk.not_mem hi)
  refine ⟨m, h₂, ObjectHeap.modify_eq hu, e₂,
    ⟨hp₂, ho₂, hb₁.congr hs₂.timers hs₂.map_id, fun b => ?_⟩, ?_⟩
  · rw [(hperm₂.trans hk.perm).mem_iff, hi.mem_iff, hs₂.timers]
    exact exists_congr fun id => by rw [show h₁.timers = h.timers from hk.same.timers]
  · have hnext : u.next.unplaced = t.unplaced.next := by
      rw [← hut]
      rfl
    have hperm := hs₂.entries_perm hperm₂
    rw [List.filterMap_cons_some (b := u.next.unplaced) (by rw [Option.bind_some, hma]; rfl),
      hnext] at hperm
    exact hperm.trans ((List.Perm.of_eq hent).cons _)

end Taken

/-! ## The operations -/

/-- The timer that `addTimer` makes. -/
def newTimer (id : Int) (now : Timestamp) (timeoutMs : Int) (timerCb : C) (callTimes : Int) :
    Timer C :=
  { id, timestamp := now.add (max 0 timeoutMs), timeout := max 0 timeoutMs, timerCb, callTimes,
    heapPos := -1 }

/-- `addTimer` with its parts named. -/
theorem addTimer_eq (now : Timestamp) (timeoutMs : Int) (timerCb : C) (callTimes : Int) :
    h.addTimer now timeoutMs timerCb callTimes =
      (let m := (h.objects.alloc (newTimer h.getId.2 now timeoutMs timerCb callTimes)).1
      match h.timers h.getId.2 with
      | some _ => do some (← delete { h.getId.1 with objects := m } h.objects.next, -1)
      | none => do
        let h₁ := { h.getId.1.setTimers h.getId.2 (some h.objects.next) with objects := m }
        some (← h₁.minHeapInsert h.objects.next, h.getId.2)) := rfl

@[simp] theorem timers_getId : h.getId.1.timers = h.timers := rfl

/-- `addTimer` adds a timer under the next id, unless that id is still in use. -/
theorem addTimer_spec (hi : Inv h) (now : Timestamp) (timeoutMs : Int) (timerCb : C)
    (callTimes : Int) :
    ∃ h' r, h.addTimer now timeoutMs timerCb callTimes = some (h', r) ∧ Inv h' ∧
      if h.timers h.getId.2 = none then
        r = h.getId.2 ∧
          h'.entries.Perm (newTimer h.getId.2 now timeoutMs timerCb callTimes :: h.entries)
      else
        r = -1 ∧ h'.entries = h.entries := by
  set id := h.getId.2 with hid
  set t := newTimer id now timeoutMs timerCb callTimes with ht
  set a := h.objects.next with ha
  have hold : ∀ b u, h.objects.cell b = some u → b ≠ a := fun b u hu =>
    Nat.ne_of_lt (ObjectHeap.lt_next hu)
  cases hin : h.timers id with
  | some b =>
    -- the id is taken: the new timer is deleted again
    set h' : TimerHeap C :=
      { h.getId.1 with objects := (h.objects.alloc t).1.remove a } with hh'
    have hcell : ∀ c, h'.objects.cell c = h.objects.cell c := by
      intro c
      by_cases hc : c = a
      · subst hc
        rw [h.objects.fresh _ le_rfl]
        exact if_pos rfl
      · exact (if_neg hc).trans (if_neg hc)
    obtain ⟨hplaced, hkey, hent⟩ := agree h h' rfl fun c _ => hcell c
    refine ⟨h', -1, ?_, ⟨hplaced hi.placed, hi.ordered.agree rfl hkey,
      hi.bound.congr rfl fun c => by rw [hcell c], hi.mem_iff⟩, rfl, hent⟩
    have hfree : (h.objects.alloc t).1.free a = some ((h.objects.alloc t).1.remove a) := by
      rw [ObjectHeap.free, ObjectHeap.cell_alloc_next]
      rfl
    rw [addTimer_eq, ← hid, hin]
    simp only [delete]
    rw [← ht, hfree]
    rfl
  | none =>
    set h₁ : TimerHeap C :=
      { h.getId.1.setTimers id (some a) with objects := (h.objects.alloc t).1 } with hh₁
    have hcell : ∀ b, b ≠ a → h₁.objects.cell b = h.objects.cell b := fun b hb => if_neg hb
    have hnew : h₁.objects.cell a = some t := ObjectHeap.cell_alloc_next t
    have hnot : some a ∉ h.timerMinHeap.toList := by
      intro hmem
      obtain ⟨id', hid'⟩ := (hi.mem_iff a).mp hmem
      obtain ⟨u, hu, -⟩ := hi.bound.id_eq id' a hid'
      exact hold a u hu rfl
    obtain ⟨hplaced, hkey, hent⟩ := agree h h₁ rfl fun b hb =>
      hcell b (by
        rintro rfl
        exact hnot hb)
    have hb₁ : Bound h₁ := by
      constructor
      · intro id' b hb
        by_cases hid' : id' = id
        · obtain rfl : a = b := by simpa [hh₁, setTimers, hid'] using hb
          exact ⟨t, hnew, hid'.symm⟩
        · obtain ⟨u, hu, huid⟩ := hi.bound.id_eq id' b (by simpa [hh₁, setTimers, hid'] using hb)
          exact ⟨u, (hcell b (hold b u hu)).trans hu, huid⟩
      · intro b u hu
        by_cases hb : b = a
        · obtain rfl : t = u := Option.some.inj (hnew.symm.trans (hb ▸ hu))
          exact hb ▸ if_pos rfl
        · have hlive := hi.bound.live b u ((hcell b hb).symm.trans hu)
          have hne : u.id ≠ id := by
            intro heq
            rw [heq, hin] at hlive
            cases hlive
          exact (if_neg hne).trans hlive
    obtain ⟨h₂, e₂, hp₂, ho₂, hs₂, hperm₂⟩ := minHeapInsert_spec (h := h₁)
      (hplaced hi.placed) (hi.ordered.agree rfl hkey) hnew hnot
    refine ⟨h₂, id, ?_, ⟨hp₂, ho₂, hb₁.congr hs₂.timers hs₂.map_id, fun b => ?_⟩, rfl, ?_⟩
    · rw [addTimer_eq, ← hid, hin]
      show (do some (← h₁.minHeapInsert a, id)) = _
      rw [e₂]
      rfl
    · rw [hperm₂.mem_iff, List.mem_cons, Option.some.injEq, hs₂.timers]
      show b = a ∨ some b ∈ h.timerMinHeap.toList ↔ _
      rw [hi.mem_iff b]
      constructor
      · rintro (rfl | ⟨id', hb⟩)
        · exact ⟨id, if_pos rfl⟩
        · refine ⟨id', (if_neg ?_).trans hb⟩
          rintro rfl
          rw [hin] at hb
          cases hb
      · rintro ⟨id', hb⟩
        by_cases hid' : id' = id
        · left
          simpa [hh₁, setTimers, hid', eq_comm] using hb
        · exact .inr ⟨id', by simpa [hh₁, setTimers, hid'] using hb⟩
    · have hperm := hs₂.entries_perm hperm₂
      rw [List.filterMap_cons_some (b := t) (by rw [Option.bind_some, hnew]; rfl)] at hperm
      exact hperm.trans ((List.Perm.of_eq hent).cons _)

/-- The first timer of a heap. -/
theorem addTimer_init (now : Timestamp) (timeoutMs : Int) (timerCb : C) (callTimes : Int) :
    ∃ h, (init : TimerHeap C).addTimer now timeoutMs timerCb callTimes = some (h, 1) ∧ Inv h ∧
      h.entries = [newTimer 1 now timeoutMs timerCb callTimes] := by
  obtain ⟨h, r, e, hi, hcase⟩ := addTimer_spec inv_init now timeoutMs timerCb callTimes
  have hfree : (init : TimerHeap C).timers (init : TimerHeap C).getId.2 = none := rfl
  rw [if_pos hfree] at hcase
  obtain ⟨rfl, hperm⟩ := hcase
  exact ⟨h, e, hi, List.perm_singleton.mp hperm⟩

/-- `removeTimer` of an id that is not in use does nothing. -/
theorem removeTimer_absent (hin : h.timers id = none) : h.removeTimer id = some h := by
  rw [removeTimer, hin]

/-- `removeTimer` takes out the timer with that id. -/
theorem removeTimer_present (hi : Inv h) (hin : h.timers id = some a) :
    ∃ h' t, h.removeTimer id = some h' ∧ Inv h' ∧ t.id = id ∧
      (t :: h'.entries).Perm h.entries := by
  obtain ⟨t, ht, htid⟩ := hi.bound.id_eq id a hin
  obtain ⟨h₁, e₁, hk⟩ := hi.take_spec (hi.mem_of_timers hin)
  obtain ⟨h₂, e₂, hi₂, hent⟩ := hk.delete_spec hi hin
  refine ⟨h₂, t.unplaced, ?_, hi₂, htid, ?_⟩
  · rw [removeTimer, hin]
    simp only [e₁, Option.bind_eq_bind, Option.bind_some, e₂]
  · rw [hent]
    exact hk.entries_perm ht

/-! ## One turn of `checkTimeout` -/

/-- The timer in slot 1 is in the heap and none is earlier. -/
theorem Inv.top (hi : Inv h) (htop : h.minHeapTop = some a) :
    some a ∈ h.timerMinHeap.toList ∧ ∃ t, h.objects.cell a = some t ∧
      ∀ u ∈ h.entries, t.timestamp.nanos ≤ u.timestamp.nanos := by
  have hsize : ¬h.timerMinHeap.size ≤ 1 := by
    intro hle
    rw [minHeapTop, if_pos hle] at htop
    cases htop
  rw [minHeapTop, if_neg hsize] at htop
  obtain ⟨t, ht⟩ := hi.placed.cell_of_slotPtr htop
  refine ⟨Array.mem_toList_iff.mpr (Array.mem_of_getElem? (getElem_of_slotPtr htop)), t, ht, ?_⟩
  intro u hu
  obtain ⟨b, v, hb, hv, rfl⟩ := mem_entries.mp hu
  obtain ⟨i, hbi⟩ := List.mem_iff_getElem?.mp hb
  have hptr : h.slotPtr i = some b := by
    rw [slotPtr, ← Array.getElem?_toList, hbi]
    rfl
  have hle := hi.ordered.root_le (hi.placed.pos_of_slotPtr hptr)
    (Nat.le_sub_one_of_lt (slotPtr_lt hptr))
  rwa [key_eq ((slot_eq htop).trans ht), key_eq ((slot_eq hptr).trans hv)] at hle

theorem Inv.top_none (hi : Inv h) (htop : h.minHeapTop = none) : h.entries = [] := by
  have hsize : h.timerMinHeap.size ≤ 1 := by
    by_contra hgt
    rw [minHeapTop, if_neg hgt] at htop
    obtain ⟨a, t, ha, -⟩ := hi.placed.slot 1 Nat.one_pos (Nat.lt_of_not_le hgt)
    rw [htop] at ha
    cases ha
  rw [List.eq_nil_iff_forall_not_mem]
  intro t ht
  obtain ⟨b, u, hb, -, -⟩ := mem_entries.mp ht
  obtain ⟨i, hbi⟩ := List.mem_iff_getElem?.mp hb
  have hptr : h.slotPtr i = some b := by
    rw [slotPtr, ← Array.getElem?_toList, hbi]
    rfl
  have hpos := hi.placed.pos_of_slotPtr hptr
  have hlt := slotPtr_lt hptr
  omega

/-- A timer whose deadline has come by milliseconds. -/
def Due (now : Timestamp) (t : Timer C) : Prop := t.timestamp.millis ≤ now.millis

/-- One turn of `checkTimeout` returns if no timer is due; else it invokes the
callback of an earliest timer, after that timer has been deleted, if this is its
last call, or moved to its next deadline. -/
theorem checkTimeout_spec (hi : Inv h) (now : Timestamp) :
    (h.checkTimeout now = some (h, none) ∧ ∀ t ∈ h.entries, ¬Due now t) ∨
    ∃ h' t l, h.checkTimeout now = some (h', some ⟨t.id, t.timerCb, t.timestamp⟩) ∧ Inv h' ∧
      Due now t ∧ h.entries.Perm (t :: l) ∧
      (∀ u ∈ h.entries, t.timestamp.nanos ≤ u.timestamp.nanos) ∧
      h'.entries.Perm (if t.callTimes = 1 then l else t.next :: l) := by
  cases htop : h.minHeapTop with
  | none =>
    left
    refine ⟨by rw [checkTimeout, htop], ?_⟩
    rw [hi.top_none htop]
    exact fun t ht => absurd ht (List.not_mem_nil)
  | some a =>
    obtain ⟨hmem, t, ht, hmin⟩ := hi.top htop
    by_cases hless : now.millisecondLess t.timestamp = true
    · left
      refine ⟨?_, fun u hu hdue => ?_⟩
      · simp only [checkTimeout, htop, ht, Option.bind_eq_bind, Option.bind_some, if_pos hless]
      · have hlt := (Timestamp.millisecondLess_iff _ _).mp hless
        have hle := Timestamp.millis_mono (hmin u hu)
        exact absurd hdue (by unfold Due; omega)
    · right
      have hdue : Due now t.unplaced := by
        have hge := mt (Timestamp.millisecondLess_iff _ _).mpr hless
        exact Int.not_lt.mp hge
      obtain ⟨h₁, e₁, hk⟩ := hi.take_spec hmem
      have hperm := (hk.entries_perm ht).symm
      obtain ⟨u, hu, hut⟩ := hk.same.exists_cell' ht
      have hid : h.timers t.id = some a := hi.bound.live a t ht
      have hcalls : u.callTimes = t.callTimes := (congrArg Timer.callTimes hut :)
      have huid : u.id = t.id := (congrArg Timer.id hut :)
      have hrun : ∀ h₂, h₁.rearm a = some h₂ → h.checkTimeout now =
          some (h₂, some ⟨t.id, t.timerCb, t.timestamp⟩) := fun h₂ e₂ => by
        simp only [checkTimeout, htop, ht, Option.bind_eq_bind, Option.bind_some, if_neg hless,
          e₁, e₂]
      by_cases hlast : t.callTimes = 1
      · obtain ⟨h₂, e₂, hi₂, hent⟩ := hk.delete_spec hi hid
        refine ⟨h₂, t.unplaced, h₁.entries, hrun h₂ ?_, hi₂, hdue, hperm, hmin, ?_⟩
        · simp only [rearm, hu, Option.bind_eq_bind, Option.bind_some]
          rw [if_pos (hcalls.trans hlast), huid]
          exact e₂
        · rw [if_pos (show t.unplaced.callTimes = 1 from hlast), hent]
      · obtain ⟨m, h₂, em, e₂, hi₂, hent⟩ := hk.reinsert_spec hi ht
        refine ⟨h₂, t.unplaced, h₁.entries, hrun h₂ ?_, hi₂, hdue, hperm, hmin, ?_⟩
        · simp only [rearm, hu, Option.bind_eq_bind, Option.bind_some, em]
          rw [if_neg fun hcon => hlast (hcalls.symm.trans hcon)]
          exact e₂
        · rw [if_neg (show ¬t.unplaced.callTimes = 1 from hlast)]
          exact hent

end TimerHeap

end Brickred
