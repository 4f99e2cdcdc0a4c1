import Brickred.Loop.Dispatch

/-!
# Runs of the loop

In every run a callback is called on the device that its event was registered for, and
only if the device has not been removed since. It is called whether or not there is one:
only the branch for errors looks, so that a callback that is cleared while an event for
it waits is called all the same.
-/

namespace Brickred

open Outcome Transition

namespace IOService

variable {C : Type} {s s' : IOService C} {c : IOCall C} {op : IOOp C}
  {l outs before after : List (IOOutput C)} {ev : EpollEvent} {branches : List (EpollEvent × Branch)}

/-! ## The devices of the events of a batch -/

/-- The event is one of the last batch, and the device that it was registered for is at its
address, attached, and has not been removed since; or the address is known as removed. -/
def Meant (l : List (IOOutput C)) (s : IOService C) (ev : EpollEvent) : Prop :=
  ∃ l₁ events l₂, l = l₁ ++ .fetched events :: l₂ ∧ ev ∈ events ∧
    (∀ events', .fetched events' ∉ l₂) ∧ (s.removedIODevices ev.ptr = true ∨
      ∃ d, s.Attached ev.ptr d ∧ d.serial = ev.serial ∧ .removed ev.serial ∉ l₂)

theorem Meant.current (h : Meant l s ev) : s.Current ev := by
  obtain ⟨l₁, events, l₂, -, -, -, hcase⟩ := h
  exact hcase.imp_right fun ⟨d, hd, hserial, _⟩ => ⟨d, hd, hserial⟩

theorem Meant.kept (hs : Coherent s) (h : Meant l s ev) (hk : Kept c s s' outs) :
    Meant (l ++ outs) s' ev := by
  obtain ⟨l₁, events, l₂, rfl, hmem, hlast, hcase⟩ := h
  refine ⟨l₁, events, l₂ ++ outs, by simp, hmem, fun events' hin => ?_, ?_⟩
  · rcases List.mem_append.mp hin with hin | hin
    · exact hlast events' hin
    · rcases hk.outs with rfl | ⟨p, d, -, rfl, -⟩
      · simp at hin
      · simp at hin
  · rcases hcase with hremoved | ⟨d, hd, hserial, hnot⟩
    · exact .inl (hk.removed ev.ptr hremoved)
    · rcases hk.attached ev.ptr d hd with hremoved | ⟨d', hd', hserial', -⟩
      · exact .inl hremoved
      · by_cases hin : .removed ev.serial ∈ outs
        · -- the device that the call removes has the event's number, hence its address
          rcases hk.outs with rfl | ⟨p, e, he, rfl, hremoved⟩
          · simp at hin
          · have hnum : ev.serial = e.serial := by simpa using hin
            obtain rfl := hs.serial_inj p ev.ptr e d he.1 hd.1 (by rw [hserial, hnum])
            exact .inl hremoved
        · exact .inr ⟨d', hd', hserial'.trans hserial, by simp [hnot, hin]⟩

/-- A callback is called on the device that its event was registered for, which has not been
removed since `epoll_wait` returned the event. -/
def OnDevice (before : List (IOOutput C)) : IOOutput C → Prop
  | .invoked b ptr serial _ => ∃ l₁ events l₂, before = l₁ ++ .fetched events :: l₂ ∧
      (∀ events', .fetched events' ∉ l₂) ∧ .removed serial ∉ l₂ ∧
      ∃ ev ∈ events, ev.ptr = ptr ∧ ev.serial = serial ∧ ev.events.has b = true
  | _ => True

/-- What holds of a state and the outputs before it. -/
structure Invariant (l : List (IOOutput C)) (s : IOService C) : Prop where
  coherent : Coherent s
  timers : s.timerHeap.Wf
  meant : ∀ x ∈ s.pending, Meant l s x.1
  justified : Justified OnDevice l

theorem invariant_init : Invariant [] (init : IOService C) where
  coherent := coherent_init
  timers := TimerHeap.wf_init
  meant x hx := by cases hx
  justified := justified_nil

theorem Coherent.of_eq (hs : Coherent s) (hdevice : s'.device = s.device)
    (hserials : s'.serials = s.serials) (hepoll : s'.epoll = s.epoll) : Coherent s' := by
  refine ⟨fun p d hd => ?_, fun p q d e hd he => ?_, fun fd r hr => ?_⟩
  · rw [hserials]
    exact hs.serial_lt p d (by rwa [hdevice] at hd)
  · exact hs.serial_inj p q d e (by rwa [hdevice] at hd) (by rwa [hdevice] at he)
  · rw [hdevice]
    exact hs.registered fd r (by rwa [hepoll] at hr)

theorem Meant.dispatched (h : Meant l s ev) (hdevice : s'.device = s.device)
    (hremoved : s'.removedIODevices = s.removedIODevices) {o : IOOutput C}
    (ho : ∀ events', o ≠ .fetched events') (ho' : ∀ n, o ≠ .removed n) :
    Meant (l ++ [o]) s' ev := by
  obtain ⟨l₁, events, l₂, rfl, hmem, hlast, hcase⟩ := h
  refine ⟨l₁, events, l₂ ++ [o], by simp, hmem, fun events' => ?_, ?_⟩
  · simp [hlast events', (ho events').symm]
  · rw [hremoved]
    refine hcase.imp_right fun ⟨d, hd, hserial, hnot⟩ => ⟨d, ⟨by rw [hdevice, hd.1], hd.2⟩,
      hserial, by simp [hnot, (ho' _).symm]⟩

theorem Invariant.dispatched (hs : Invariant l s) (hmeant : ∀ x ∈ branches, Meant l s x.1)
    {r : IOService C × List (IOOutput C)} (h : Dispatched s branches r) :
    Invariant (l ++ r.2) r.1 := by
  cases h with
  | @intro s' ev b d cb hmem hhas hstays hd hserial hcb hcontrol hpending =>
    have hdevice : s'.device = s.device := by rw [hcontrol]
    have hremoved : s'.removedIODevices = s.removedIODevices := by rw [hcontrol]
    refine ⟨hs.coherent.of_eq hdevice (by rw [hcontrol]) (by rw [hcontrol]),
      by rw [hcontrol]; exact hs.timers, fun x hx => ?_, hs.justified.snoc ?_⟩
    · exact (hmeant x (hpending x hx)).dispatched hdevice hremoved (by simp) (by simp)
    · obtain ⟨l₁, events, l₂, hl, hin, hlast, hcase⟩ := hmeant _ hmem
      refine ⟨l₁, events, l₂, hl, hlast, ?_, ev, hin, rfl, hserial.symm, hhas⟩
      rcases hcase with hgone | ⟨-, -, -, hnot⟩
      · rw [hstays] at hgone
        cases hgone
      · rwa [hserial]

theorem Invariant.timersHandled (hs : Invariant l s) {count : Nat} {now : Timestamp}
    {r : IOService C × List (IOOutput C)} (h : TimersHandled s count now r) :
    Invariant (l ++ r.2) r.1 := by
  cases h with
  | fired hw =>
    exact ⟨hs.coherent.of_eq rfl rfl rfl, hw, fun x hx => (List.not_mem_nil hx).elim,
      hs.justified.snoc trivial⟩
  | finished =>
    refine ⟨hs.coherent.of_eq rfl rfl rfl, hs.timers, fun x hx => ?_, by simpa using hs.justified⟩
    rw [pending_next] at hx
    exact (List.not_mem_nil hx).elim

theorem Invariant.stepped (hs : Invariant l s) {r : IOService C × List (IOOutput C)}
    (h : Stepped s op r) : Invariant (l ++ r.2) r.1 := by
  cases h with
  | @called c _ hs' hw hk =>
    have hpending : r.1.pending = s.pending := by rw [pending, pending, hk.control]
    refine ⟨hs', hw, fun x hx => ?_, ?_⟩
    · rw [hpending] at hx
      exact (hs.meant x hx).kept hs.coherent hk
    · rcases hk.outs with houts | ⟨p, d, -, houts, -⟩
      · rw [houts]
        simpa using hs.justified
      · rw [houts]
        exact hs.justified.snoc trivial
  | looped hcontrol hdevice hserials hepoll htimers houts =>
    refine ⟨hs.coherent.of_eq hdevice hserials hepoll, htimers ▸ hs.timers, fun x hx => ?_, ?_⟩
    · rw [hcontrol] at hx
      exact (List.not_mem_nil hx).elim
    · rcases houts with rfl | ⟨timeout, rfl⟩
      · simpa using hs.justified
      · exact hs.justified.snoc (y := IOOutput.waited timeout) trivial
  | @fetched _ ready _ timeout events count r hwait hevents hr =>
    -- the outputs of the step, one at a time
    have hs₁ : Invariant (l ++ [.waited timeout] ++ [.fetched events]) s := by
      refine ⟨hs.coherent, hs.timers, fun x hx => ?_,
        (hs.justified.snoc (y := IOOutput.waited timeout) trivial).snoc (y := IOOutput.fetched events) trivial⟩
      rw [hwait] at hx
      exact (List.not_mem_nil hx).elim
    have hmeant : ∀ x ∈ pendingOf events,
        Meant (l ++ [.waited timeout] ++ [.fetched events]) s x.1 := by
      rintro ⟨ev, b⟩ hx
      obtain ⟨ev', hmem, hb⟩ := List.mem_flatMap.mp hx
      obtain ⟨b', -, heq⟩ := List.mem_map.mp hb
      cases heq
      obtain ⟨d, hd, hserial⟩ := (hevents ev hmem).attached hs.coherent
      exact ⟨_, events, [], rfl, hmem, by simp, .inr ⟨d, hd, hserial, by simp⟩⟩
    have hend : Invariant (l ++ [.waited timeout] ++ [.fetched events] ++ r.2) r.1 := by
      rcases hr with hr | hr
      · exact hs₁.dispatched hmeant hr
      · exact hs₁.timersHandled hr
    simpa using hend
  | resumed hr =>
    rcases hr with hr | hr
    · exact hs.dispatched hs.meant hr
    · exact hs.timersHandled hr

theorem Invariant.step (hs : Invariant l s) (op : IOOp C) :
    Ensures (Stops s op) (fun r => Invariant (l ++ r.2) r.1) (s.step op) :=
  (step_cases hs.coherent hs.timers (fun x hx => (hs.meant x hx).current) op).mono
    (fun _ hr => hs.stepped hr) (fun _ he => he)

/-! ## Runs -/

/-- The outputs of a run. -/
def history (moves : List (IOOp C × List (IOOutput C))) : List (IOOutput C) :=
  moves.flatMap Prod.snd

variable {moves : List (IOOp C × List (IOOutput C))}

theorem invariant_of_run (h : Run (Steps step) init moves s) : Invariant (history moves) s := by
  refine h.history (I := fun moves s => Invariant (history moves) s) ?_ invariant_init
  rintro moves s move s' hs hstep
  rw [history, List.flatMap_append, List.flatMap_singleton]
  exact (hs.step move.1).of_ok hstep

/-- In every run, whatever the program does to the devices in callbacks and outside, also
where a device is made at the address of one destroyed before, the loop uses no device that
does not exist, and a callback for an event is called on the device that the event was
registered for, which has not been removed since the batch was fetched. -/
theorem events_on_device (h : Run (Steps step) init moves s) :
    (∀ op, s.step op ≠ .error .dangling) ∧
    ∀ before b ptr serial cb after,
      history moves = before ++ .invoked b ptr serial cb :: after →
      ∃ l₁ events l₂, before = l₁ ++ .fetched events :: l₂ ∧
        (∀ events', .fetched events' ∉ l₂) ∧ .removed serial ∉ l₂ ∧
        ∃ ev ∈ events, ev.ptr = ptr ∧ ev.serial = serial ∧ ev.events.has b = true := by
  have hs := invariant_of_run h
  refine ⟨fun op hstep => ?_, fun before b ptr serial cb after hl => ?_⟩
  · cases (hs.step op).of_error hstep
  · exact hs.justified before _ after hl

/-- `EPOLLIN` -/
def readable : EpollEvents := ⟨true, false, false, false, false, false⟩

/-- Two devices have events; the first one's callback destroys the other and makes and
attaches a new device at its address, whose callback is not called. -/
def replaced : List (IOOp Unit) :=
  [.call (.create 0), .call (.setDescriptor 0 5), .call (.setReadCallback 0 (some ()) true),
    .call (.attachIOService 0 .this true), .call (.create 1), .call (.setDescriptor 1 6),
    .call (.setReadCallback 1 (some ()) true), .call (.attachIOService 1 .this true), .loop,
    .epollWait .zero [(5, readable), (6, readable)] .zero, .call (.destroy 1),
    .call (.create 1), .call (.setDescriptor 1 7), .call (.setReadCallback 1 (some ()) true),
    .call (.attachIOService 1 .this true), .callbackReturn .zero]

theorem events_on_device_replaced : ∃ s moves, Run (Steps step) (init : IOService Unit) moves s ∧
    (history moves).all (fun o => o ≠ .invoked .read 1 1 () ∧ o ≠ .invoked .read 1 2 ()) ∧
    ∃ before after, history moves = before ++ .invoked .read 0 0 () :: after ∧
      ∃ events, .fetched events ∈ before ∧ ∃ ev ∈ events, ev.ptr = 0 ∧ ev.serial = 0 := by
  obtain ⟨s, moves, hexec, htest⟩ := exists_of_execTest step init replaced
    (fun _ moves => (history moves).all (fun o =>
      o ≠ .invoked .read 1 1 () ∧ o ≠ .invoked .read 1 2 ()) ∧
        .invoked .read 0 0 () ∈ history moves) (by decide +kernel)
  simp only [decide_eq_true_eq] at htest
  obtain ⟨before, after, hl⟩ := List.append_of_mem htest.2
  refine ⟨s, moves, exec_run hexec, htest.1, before, after, hl, ?_⟩
  obtain ⟨l₁, events, l₂, rfl, -, -, ev, hev, hptr, hserial, -⟩ :=
    (events_on_device (exec_run hexec)).2 before .read 0 0 () after hl
  exact ⟨events, by simp, ev, hev, hptr, hserial⟩

/-! ## Callbacks that are cleared -/

/-- The masks that the kernel returns fit the callbacks that are installed. -/
def consistent (s : IOService C) : IOOp C → Bool
  | .epollWait _ ready _ => ready.all fun x =>
      ((s.epoll x.1).bind fun r => s.device r.ptr).all fun d =>
        (!x.2.has .write || d.writeCb.isSome) && (!x.2.has .read || d.readCb.isSome)
  | _ => true

/-- No read or write callback is cleared of a device that is not removed and has an event of
that kind that waits in the batch, and no timer is started with an empty `Function`. -/
def KeepsCallbacks (s : IOService C) : IOOp C → Prop
  | .call c => (∀ ev b, (ev, b) ∈ s.pending → b ≠ .error → ev.events.has b = true →
      s.removedIODevices ev.ptr = false → ¬c.Clears ev.ptr b) ∧ ¬c.Starts none
  | _ => True

/-- The callbacks that the loop is to call are there. -/
structure Filled (s : IOService C) : Prop where
  branches : ∀ ev b, (ev, b) ∈ s.pending → b ≠ .error → ev.events.has b = true →
    s.removedIODevices ev.ptr = false → ∀ d, s.Attached ev.ptr d → d.callback b ≠ none
  timers : ∀ id t, s.timerHeap.find? id = some t → t.timerCb ≠ none

theorem Filled.not_empty (h : Filled s) : ¬Empty s s.pending := by
  rintro ⟨ev, b, d, hmem, hb, hhas, hstays, hd, hnone⟩
  exact h.branches ev b hmem hb hhas hstays d hd hnone

theorem Filled.not_emptyTimer (h : Filled s) : ¬EmptyTimer s := by
  rintro ⟨id, t, ht, hnone⟩
  exact h.timers id t ht hnone

theorem consistent_not_empty {ready : List (Int × EpollEvents)} {t t' : Timestamp}
    {events : List EpollEvent} (hcons : s.consistent (.epollWait t ready t') = true)
    (hevents : ∀ ev ∈ events, Fetched s ready ev) : ¬Empty s (pendingOf events) := by
  rintro ⟨ev, b, d, hmem, hb, hhas, -, hd, hnone⟩
  obtain ⟨ev', hin, hmap⟩ := List.mem_flatMap.mp hmem
  obtain ⟨b', -, heq⟩ := List.mem_map.mp hmap
  cases heq
  obtain ⟨x, hx, r, hr, rfl⟩ := hevents ev hin
  have hmask := List.all_eq_true.mp hcons x hx
  have hdevice : ((s.epoll x.1).bind fun r => s.device r.ptr) = some d := by
    rw [hr]
    exact hd.1
  rw [hdevice, Option.all_some, Bool.and_eq_true] at hmask
  cases b with
  | error => exact hb rfl
  | write => simp_all [IODevice.callback]
  | read => simp_all [IODevice.callback]

/-- The branches that are left are those of which it is known that they are filled. -/
theorem Filled.dispatched (htimers : ∀ id t, s.timerHeap.find? id = some t → t.timerCb ≠ none)
    (hempty : ¬Empty s branches) {r : IOService C × List (IOOutput C)}
    (h : Dispatched s branches r) : Filled r.1 := by
  cases h with
  | @intro s' ev b d cb hmem hhas hstays hd hserial hcb hcontrol hpending =>
    have hheap : s'.timerHeap = s.timerHeap := by rw [hcontrol]
    refine ⟨fun ev b hmem hb hhas hstays d hd hnone => hempty ?_, fun id t ht => ?_⟩
    · rw [hcontrol] at hstays hd
      exact ⟨ev, b, d, hpending _ hmem, hb, hhas, hstays, hd, hnone⟩
    · exact htimers id t (hheap ▸ ht)

theorem Filled.timersHandled (h : Filled s) {count : Nat} {now : Timestamp}
    {r : IOService C × List (IOOutput C)} (hr : TimersHandled s count now r) : Filled r.1 := by
  cases hr with
  | @fired heap id t cb hw ht hcb hfind =>
    refine ⟨fun ev b hmem => (List.not_mem_nil hmem).elim, fun id' t' ht' => ?_⟩
    dsimp only at ht'
    rw [hfind] at ht'
    rcases update_eq_some ht' with ⟨-, hnew⟩ | ⟨-, hold⟩
    · split at hnew
      · cases hnew
      · cases hnew
        exact h.timers id t ht
    · exact h.timers id' t' hold
  | finished =>
    refine ⟨fun ev b hmem => ?_, h.timers⟩
    rw [pending_next] at hmem
    exact (List.not_mem_nil hmem).elim

theorem Filled.kept (h : Filled s) (hcurrent : ∀ x ∈ s.pending, s.Current x.1)
    (hkeep : KeepsCallbacks s (.call c)) (hk : Kept c s s' outs) : Filled s' := by
  have hpending : s'.pending = s.pending := by rw [pending, pending, hk.control]
  refine ⟨fun ev b hmem hb hhas hstays d' hd' => ?_, fun id t ht => ?_⟩
  · rw [hpending] at hmem
    have hstays₀ : s.removedIODevices ev.ptr = false := by
      by_contra hremoved
      rw [hk.removed ev.ptr (by simpa using hremoved)] at hstays
      cases hstays
    rcases hcurrent _ hmem with hremoved | ⟨d, hd, -⟩
    · rw [hstays₀] at hremoved
      cases hremoved
    · have hcb := h.branches ev b hmem hb hhas hstays₀ d hd
      rcases hk.attached ev.ptr d hd with hremoved | ⟨e, he, -, hcallback⟩
      · rw [hstays] at hremoved
        cases hremoved
      · obtain rfl : e = d' := Option.some.inj (he.1.symm.trans hd'.1)
        exact (hcallback b hcb).resolve_right (hkeep.1 ev b hmem hb hhas hstays₀)
  · rcases hk.timers id t ht with hold | hstarts
    · exact h.timers id t hold
    · intro hnone
      exact hkeep.2 (hnone ▸ hstarts)

theorem Filled.stepped (h : Filled s) (hcurrent : ∀ x ∈ s.pending, s.Current x.1)
    (hcons : s.consistent op = true) (hkeep : KeepsCallbacks s op)
    {r : IOService C × List (IOOutput C)} (hr : Stepped s op r) : Filled r.1 := by
  cases hr with
  | called _ _ hk => exact h.kept hcurrent hkeep hk
  | looped hcontrol hdevice hserials hepoll htimers =>
    refine ⟨fun ev b hmem => ?_, fun id t ht => h.timers id t (htimers ▸ ht)⟩
    rw [hcontrol] at hmem
    exact (List.not_mem_nil hmem).elim
  | @fetched _ _ _ _ _ _ r hwait hevents hr =>
    show Filled r.1
    rcases hr with hr | hr
    · exact .dispatched h.timers (consistent_not_empty hcons hevents) hr
    · exact h.timersHandled hr
  | resumed hr =>
    rcases hr with hr | hr
    · exact .dispatched h.timers h.not_empty hr
    · exact h.timersHandled hr

/-- If no callback is cleared while an event for it waits and no timer is empty, the loop
calls no empty `Function`. -/
theorem no_empty_function
    (h : Run (Guarded (fun s move => s.consistent move.1 = true ∧ KeepsCallbacks s move.1) (Steps step))
      init moves s) (hcons : s.consistent op = true) : s.step op ≠ .error .emptyFunction := by
  have hend : Invariant (history moves) s ∧ Filled s := by
    refine h.history (I := fun moves s => Invariant (history moves) s ∧ Filled s) ?_
      ⟨invariant_init, fun _ _ hmem => (List.not_mem_nil hmem).elim, fun _ _ ht => by cases ht⟩
    rintro moves s move s' ⟨hs, hfilled⟩ ⟨⟨hcons, hkeep⟩, hstep⟩
    have hcurrent : ∀ x ∈ s.pending, s.Current x.1 := fun x hx => (hs.meant x hx).current
    refine ⟨?_, hfilled.stepped hcurrent hcons hkeep
      ((step_cases hs.coherent hs.timers hcurrent move.1).of_ok hstep)⟩
    rw [history, List.flatMap_append, List.flatMap_singleton]
    exact (hs.step move.1).of_ok hstep
  obtain ⟨hs, hfilled⟩ := hend
  intro hstep
  cases (hs.step op).of_error hstep with
  | timer htimer => exact hfilled.not_emptyTimer htimer
  | fetched hevents hempty => exact consistent_not_empty hcons hevents hempty
  | resumed hempty => exact hfilled.not_empty hempty

/-- A batch with an event for a device with a read callback. -/
theorem no_empty_function_readable : ∃ (s : IOService Unit) (moves : _),
    Run (Guarded (fun s move => s.consistent move.1 = true ∧ KeepsCallbacks s move.1) (Steps step))
      init moves s ∧
    s.step (.epollWait .zero [(5, readable)] .zero) ≠ .error .emptyFunction := by
  have hidle : ∀ (s : IOService Unit) (c : IOCall Unit), s.pending = [] → ¬c.Starts none →
      s.consistent (.call c) = true ∧ KeepsCallbacks s (.call c) := by
    intro s c hpending hstarts
    refine ⟨rfl, fun ev b hmem => ?_, hstarts⟩
    rw [hpending] at hmem
    exact (List.not_mem_nil hmem).elim
  have hrun : Run (Guarded (fun s move => s.consistent move.1 = true ∧ KeepsCallbacks s move.1)
      (Steps step)) (init : IOService Unit) [(.call (.create 0), []),
        (.call (.setDescriptor 0 5), []), (.call (.setReadCallback 0 (some ()) true), []),
        (.call (.attachIOService 0 .this true), []), (.loop, [])] _ :=
    .cons ⟨hidle _ _ rfl id, rfl⟩ <| .cons ⟨hidle _ _ rfl id, rfl⟩ <|
    .cons ⟨hidle _ _ rfl id, rfl⟩ <| .cons ⟨hidle _ _ rfl id, rfl⟩ <|
    .cons ⟨⟨rfl, trivial⟩, rfl⟩ .nil
  exact ⟨_, _, hrun, no_empty_function hrun rfl⟩

/-- A device's write callback clears its read callback, and both events were in the mask. -/
def cleared : List (IOOp Unit) :=
  [.call (.create 0), .call (.setDescriptor 0 5), .call (.setReadCallback 0 (some ()) true),
    .call (.setWriteCallback 0 (some ()) true), .call (.attachIOService 0 .this true), .loop,
    .epollWait .zero [(5, { readable with epollout := true })] .zero,
    .call (.setReadCallback 0 none true)]

/-- The masks fit the callbacks that are installed, and an empty `Function` is called. -/
theorem empty_function_called : ∃ s moves,
    Run (Guarded (fun s move => s.consistent move.1 = true) (Steps step))
      (init : IOService Unit) moves s ∧
    s.step (.callbackReturn .zero) = .error .emptyFunction := by
  obtain ⟨s, moves, hexec, htest⟩ := exists_of_execTest
    (guardedStep consistent .noStep step) (init : IOService Unit) cleared
    (fun s _ => match s.step (.callbackReturn .zero) with
      | .error .emptyFunction => true
      | _ => false) (by decide +kernel)
  refine ⟨s, moves, exec_guardedStep hexec, ?_⟩
  split at htest
  · assumption
  · cases htest

end IOService

end Brickred
