import Mathlib.Logic.Function.Basic
import Brickred.Timer.Invariant

/-!
# Timers by id

`find?` looks a timer up in the id map. What the operations do to the collection
of timers becomes what they do to one key of `find?`: `addTimer` and `removeTimer`
are an insertion and a deletion, a turn of `checkTimeout` deletes or rewrites the
timer that it fires. Ids are positive, so that -1 is never one of them.
-/

namespace Brickred

namespace TimerHeap

variable {C : Type} {h h' : TimerHeap C} {a : TimerPtr} {t u : Timer C} {l : List (Timer C)}
  {id r : Int}

/-- The timer with an id, without its slot. -/
def find? (h : TimerHeap C) (id : Int) : Option (Timer C) :=
  ((h.timers id).bind h.objects.cell).map Timer.unplaced

/-! ## The collection and the id map -/

namespace Inv

variable (hi : Inv h)
include hi

theorem find?_eq_some : h.find? id = some t ↔ t ∈ h.entries ∧ t.id = id := by
  unfold find?
  constructor
  · intro hfind
    obtain ⟨u, hu, rfl⟩ := Option.map_eq_some_iff.mp hfind
    obtain ⟨a, ha, hau⟩ := Option.bind_eq_some_iff.mp hu
    obtain ⟨v, hv, hid⟩ := hi.bound.id_eq id a ha
    obtain rfl : u = v := Option.some.inj (hau.symm.trans hv)
    exact ⟨mem_entries.mpr ⟨a, u, hi.mem_of_timers ha, hau, rfl⟩, hid⟩
  · rintro ⟨hmem, rfl⟩
    obtain ⟨a, u, -, hu, rfl⟩ := mem_entries.mp hmem
    have ha : h.timers u.unplaced.id = some a := hi.bound.live a u hu
    rw [ha, Option.bind_some, hu]
    rfl

theorem timers_eq_none : h.timers id = none ↔ h.find? id = none := by
  rw [← not_iff_not]
  change h.timers id ≠ none ↔ h.find? id ≠ none
  rw [hi.timers_ne_none_iff, Option.ne_none_iff_exists']
  exact exists_congr fun t => hi.find?_eq_some.symm

/-- Different timers have different ids. -/
theorem ids_inj (ht : t ∈ h.entries) (hu : u ∈ h.entries) (hid : t.id = u.id) : t = u := by
  have h₁ := hi.find?_eq_some.mpr ⟨ht, hid⟩
  have h₂ := hi.find?_eq_some.mpr ⟨hu, rfl⟩
  exact Option.some.inj (h₁.symm.trans h₂)

theorem nodup_entries : h.entries.Nodup := by
  refine List.Nodup.filterMap ?_ hi.placed.nodup
  intro p q t hp hq
  cases p with
  | none => simp at hp
  | some a =>
    cases q with
    | none => simp at hq
    | some b =>
      obtain ⟨u, hu, hut⟩ : ∃ u, h.objects.cell a = some u ∧ u.unplaced = t := by simpa using hp
      obtain ⟨v, hv, hvt⟩ : ∃ v, h.objects.cell b = some v ∧ v.unplaced = t := by simpa using hq
      have hid : u.id = v.id := (congrArg Timer.id (hut.trans hvt.symm) :)
      have hab : some a = some b := by
        rw [← hi.bound.live a u hu, ← hi.bound.live b v hv, hid]
      exact hab

/-- No other timer has the id of one that is taken out. -/
theorem id_ne_of_perm (hperm : h.entries.Perm (t :: l)) (hu : u ∈ l) : u.id ≠ t.id := by
  intro hid
  have hut := hi.ids_inj (hperm.mem_iff.mpr (List.mem_cons_of_mem _ hu))
    (hperm.mem_iff.mpr (List.mem_cons_self ..)) hid
  exact (List.nodup_cons.mp (hperm.nodup_iff.mp hi.nodup_entries)).1 (hut ▸ hu)

end Inv

section Update

variable (hi : Inv h) (hi' : Inv h')
include hi hi'

/-- The timers of `h'` and `h` other than that with one id. -/
theorem find?_congr (id : Int) (hmem : ∀ u, u.id ≠ id → (u ∈ h'.entries ↔ u ∈ h.entries)) :
    h'.find? = Function.update h.find? id (h'.find? id) := by
  funext id'
  by_cases hid : id' = id
  · rw [hid, Function.update_self]
  · rw [Function.update_of_ne hid]
    refine Option.ext fun u => ?_
    rw [hi'.find?_eq_some, hi.find?_eq_some]
    exact and_congr_left fun hu => hmem u (hu.trans_ne hid)

theorem find?_insert (hperm : h'.entries.Perm (t :: h.entries)) :
    h'.find? = Function.update h.find? t.id (some t) := by
  rw [find?_congr hi hi' t.id fun u hu => ?_]
  · rw [hi'.find?_eq_some.mpr ⟨hperm.mem_iff.mpr (List.mem_cons_self ..), rfl⟩]
  · rw [hperm.mem_iff, List.mem_cons, or_iff_right]
    rintro rfl
    exact hu rfl

theorem find?_remove (hperm : h.entries.Perm (t :: h'.entries)) :
    h'.find? = Function.update h.find? t.id none := by
  rw [find?_congr hi hi' t.id fun u hu => ?_]
  · congr 1
    rw [Option.eq_none_iff_forall_not_mem]
    intro u hu
    obtain ⟨hmem, hid⟩ := hi'.find?_eq_some.mp hu
    exact hi.id_ne_of_perm hperm hmem hid
  · rw [hperm.mem_iff, List.mem_cons, or_iff_right]
    rintro rfl
    exact hu rfl

theorem find?_replace (hperm : h.entries.Perm (t :: l)) (hperm' : h'.entries.Perm (u :: l))
    (hid : u.id = t.id) : h'.find? = Function.update h.find? t.id (some u) := by
  rw [find?_congr hi hi' t.id fun v hv => ?_]
  · rw [hi'.find?_eq_some.mpr ⟨hperm'.mem_iff.mpr (List.mem_cons_self ..), hid⟩]
  · rw [hperm.mem_iff, hperm'.mem_iff, List.mem_cons, List.mem_cons]
    refine or_congr_left (iff_of_false ?_ ?_)
    · rintro rfl
      exact hv hid
    · rintro rfl
      exact hv rfl

end Update

/-! ## The id allocator -/

theorem allocator_setHeapPos {x : Int} (e : h.setHeapPos a x = some h') :
    h'.timerIdAllocator = h.timerIdAllocator := by
  obtain ⟨m, -, hm⟩ := Option.bind_eq_some_iff.mp e
  cases hm
  rfl

theorem allocator_exchange {i j : Nat} (e : h.exchange i j = some h') :
    h'.timerIdAllocator = h.timerIdAllocator := by
  unfold exchange at e
  obtain ⟨a, -, e⟩ := Option.bind_eq_some_iff.mp e
  obtain ⟨h₁, e₁, e⟩ := Option.bind_eq_some_iff.mp e
  obtain ⟨b, -, e⟩ := Option.bind_eq_some_iff.mp e
  obtain ⟨h₂, e₂, e⟩ := Option.bind_eq_some_iff.mp e
  cases e
  exact (allocator_setHeapPos e₂).trans (allocator_setHeapPos e₁)

theorem allocator_minHeapShiftUpLoop {fuel i : Nat} (e : minHeapShiftUpLoop fuel h i = some h') :
    h'.timerIdAllocator = h.timerIdAllocator := by
  induction fuel generalizing h i with
  | zero => cases e
  | succ fuel ih =>
    simp only [minHeapShiftUpLoop] at e
    split at e
    · cases e
      rfl
    · obtain ⟨t, -, e⟩ := Option.bind_eq_some_iff.mp e
      obtain ⟨u, -, e⟩ := Option.bind_eq_some_iff.mp e
      split at e
      · obtain ⟨h₁, e₁, e⟩ := Option.bind_eq_some_iff.mp e
        exact (ih e).trans (allocator_exchange e₁)
      · cases e
        rfl

theorem allocator_minHeapInsert (e : h.minHeapInsert a = some h') :
    h'.timerIdAllocator = h.timerIdAllocator := by
  unfold minHeapInsert at e
  obtain ⟨h₁, e₁, e⟩ := Option.bind_eq_some_iff.mp e
  exact (allocator_minHeapShiftUpLoop e).trans (allocator_setHeapPos e₁ :)

theorem allocator_delete (e : h.delete a = some h') :
    h'.timerIdAllocator = h.timerIdAllocator := by
  obtain ⟨m, -, hm⟩ := Option.bind_eq_some_iff.mp e
  cases hm
  rfl

theorem allocator_addTimer {now : Timestamp} {timeoutMs callTimes : Int} {timerCb : C}
    (e : h.addTimer now timeoutMs timerCb callTimes = some (h', r)) :
    h'.timerIdAllocator = h.getId.1.timerIdAllocator := by
  rw [addTimer_eq] at e
  dsimp only at e
  split at e
  · obtain ⟨h₁, e₁, e⟩ := Option.bind_eq_some_iff.mp e
    cases e
    exact (allocator_delete e₁ :)
  · obtain ⟨h₁, e₁, e⟩ := Option.bind_eq_some_iff.mp e
    cases e
    exact (allocator_minHeapInsert e₁ :)

theorem allocator_removeTimer (hi : Inv h) (e : h.removeTimer id = some h') :
    h'.timerIdAllocator = h.timerIdAllocator := by
  unfold removeTimer at e
  split at e
  · cases e
    rfl
  next a ha =>
    obtain ⟨h₁, e₁, hk⟩ := hi.take_spec (hi.mem_of_timers ha)
    rw [e₁] at e
    exact (allocator_delete e :).trans hk.same.allocator

theorem allocator_rearm (e : h.rearm a = some h') :
    h'.timerIdAllocator = h.timerIdAllocator := by
  unfold rearm at e
  obtain ⟨t, -, e⟩ := Option.bind_eq_some_iff.mp e
  split at e
  · exact (allocator_delete e :)
  · obtain ⟨m, -, e⟩ := Option.bind_eq_some_iff.mp e
    exact (allocator_minHeapInsert e :)

theorem allocator_checkTimeout (hi : Inv h) {now : Timestamp} {f : Option (Firing C)}
    (e : h.checkTimeout now = some (h', f)) : h'.timerIdAllocator = h.timerIdAllocator := by
  unfold checkTimeout at e
  split at e
  · cases e
    rfl
  next a htop =>
    obtain ⟨t, -, e⟩ := Option.bind_eq_some_iff.mp e
    split at e
    · cases e
      rfl
    · obtain ⟨hmem, -⟩ := hi.top htop
      obtain ⟨h₁, e₁, hk⟩ := hi.take_spec hmem
      rw [e₁] at e
      obtain ⟨h₂, e₂, e⟩ := Option.bind_eq_some_iff.mp (show (h₁.rearm a).bind _ = _ from e)
      cases e
      exact (allocator_rearm e₂).trans hk.same.allocator

/-- The values the allocator takes between its calls. -/
def IdRange (h : TimerHeap C) : Prop := 0 ≤ h.timerIdAllocator ∧ h.timerIdAllocator < 2 ^ 63

theorem getId_range (hr : IdRange h) : 0 < h.getId.2 ∧ h.getId.1.IdRange := by
  unfold IdRange getId at *
  dsimp only
  split <;> omega

/-! ## The operations -/

/-- The invariant with the range of the ids. -/
structure Wf (h : TimerHeap C) : Prop where
  inv : Inv h
  range : IdRange h
  pos : ∀ {id}, h.find? id ≠ none → 0 < id

theorem wf_init : Wf (init : TimerHeap C) :=
  ⟨inv_init, ⟨le_rfl, (by decide : (0 : Int) < 2 ^ 63)⟩, fun hne => absurd rfl hne⟩

theorem Wf.find?_of_nonpos (hw : Wf h) (hid : id ≤ 0) : h.find? id = none := by
  by_contra hne
  exact absurd (hw.pos hne) (Int.not_lt.mpr hid)

theorem Wf.addTimer (hw : Wf h) (now : Timestamp) (timeoutMs : Int) (timerCb : C)
    (callTimes : Int) :
    ∃ h' r, h.addTimer now timeoutMs timerCb callTimes = some (h', r) ∧ Wf h' ∧
      h'.timerIdAllocator = h.getId.2 ∧
      if h.find? h.getId.2 = none then
        r = h.getId.2 ∧ h'.find? = Function.update h.find? h.getId.2
          (some (newTimer h.getId.2 now timeoutMs timerCb callTimes))
      else
        r = -1 ∧ h'.find? = h.find? := by
  obtain ⟨h', r, e, hi', hcase⟩ := addTimer_spec hw.inv now timeoutMs timerCb callTimes
  have halloc := allocator_addTimer e
  obtain ⟨hpos, hr⟩ := getId_range hw.range
  have hr' : IdRange h' := by
    unfold IdRange at hr ⊢
    rwa [halloc]
  rw [if_congr hw.inv.timers_eq_none rfl rfl] at hcase
  refine ⟨h', r, e, ?_, halloc, ?_⟩
  · refine ⟨hi', hr', fun {id} hne => ?_⟩
    split at hcase
    · rw [find?_insert hw.inv hi' hcase.2] at hne
      by_cases hid : id = h.getId.2
      · exact hid ▸ hpos
      · exact hw.pos (by simpa [Function.update_of_ne hid, newTimer] using hne)
    · obtain ⟨t, ht⟩ := Option.ne_none_iff_exists'.mp hne
      rw [hi'.find?_eq_some, hcase.2, ← hw.inv.find?_eq_some] at ht
      exact hw.pos (by rw [ht]; simp)
  · split at hcase
    next hfree =>
      rw [if_pos hfree]
      exact ⟨hcase.1, find?_insert hw.inv hi' hcase.2⟩
    next hfree =>
      rw [if_neg hfree]
      refine ⟨hcase.1, funext fun id => Option.ext fun t => ?_⟩
      rw [hi'.find?_eq_some, hcase.2, hw.inv.find?_eq_some]

theorem Wf.removeTimer (hw : Wf h) (id : Int) :
    ∃ h', h.removeTimer id = some h' ∧ Wf h' ∧ h'.timerIdAllocator = h.timerIdAllocator ∧
      h'.find? = Function.update h.find? id none := by
  cases hin : h.timers id with
  | none =>
    refine ⟨h, removeTimer_absent hin, hw, rfl, ?_⟩
    rw [← hw.inv.timers_eq_none.mp hin, Function.update_eq_self]
  | some a =>
    obtain ⟨h', t, e, hi', rfl, hperm⟩ := removeTimer_present hw.inv hin
    have halloc := allocator_removeTimer hw.inv e
    have hfind := find?_remove hw.inv hi' hperm.symm
    refine ⟨h', e, ⟨hi', ?_, fun {id} hne => ?_⟩, halloc, hfind⟩
    · have hr := hw.range
      unfold IdRange at hr ⊢
      rwa [halloc]
    · rw [hfind] at hne
      refine hw.pos fun hnone => hne ?_
      by_cases hid : id = t.id
      · rw [hid, Function.update_self]
      · rw [Function.update_of_ne hid, hnone]

/-- The timer that a turn of `checkTimeout` fires is deleted or rewritten. -/
theorem Wf.checkTimeout (hw : Wf h) (now : Timestamp) :
    h.checkTimeout now = some (h, none) ∨
    ∃ h' t, h.checkTimeout now = some (h', some ⟨t.id, t.timerCb, t.timestamp⟩) ∧ Wf h' ∧
      h.find? t.id = some t ∧ h'.timerIdAllocator = h.timerIdAllocator ∧
      h'.find? = Function.update h.find? t.id
        (if t.callTimes = 1 then none else some t.next) := by
  rcases checkTimeout_spec hw.inv now with ⟨e, -⟩ | ⟨h', t, l, e, hi', -, hperm, -, hperm'⟩
  · exact .inl e
  · have halloc := allocator_checkTimeout hw.inv e
    have ht := hw.inv.find?_eq_some.mpr ⟨hperm.mem_iff.mpr (List.mem_cons_self ..), rfl⟩
    have hfind : h'.find? = Function.update h.find? t.id
        (if t.callTimes = 1 then none else some t.next) := by
      split at hperm'
      next hlast => rw [if_pos hlast, find?_remove hw.inv hi' (hperm.trans (hperm'.symm.cons t))]
      next hlast => rw [if_neg hlast, find?_replace hw.inv hi' hperm hperm' rfl]
    refine .inr ⟨h', t, e, ⟨hi', ?_, fun {id} hne => ?_⟩, ht, halloc, hfind⟩
    · have hr := hw.range
      unfold IdRange at hr ⊢
      rwa [halloc]
    · by_cases hid : id = t.id
      · exact hw.pos (by rw [hid, ht]; simp)
      · rw [hfind, Function.update_of_ne hid] at hne
        exact hw.pos hne

end TimerHeap

end Brickred
