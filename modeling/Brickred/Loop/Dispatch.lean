import Brickred.Lib.Outcome
import Brickred.Lib.Transition
import Brickred.Loop.IOService
import Brickred.Timer.Lookup

/-!
# The devices that events are dispatched to

An event carries an address, and what is at the address may have changed since
`epoll_wait` returned. `removed_io_devices_` keeps every address of which that can be
so: a device leaves the interest list only through `removeIODevice`, which puts its
address there, and the set is emptied only when no event is left.
-/

namespace Brickred

open Outcome Transition

variable {C : Type}

/-- The call assigns an empty `Function` to a callback of the device at `p`. -/
def IOCall.Clears : IOCall C → DevicePtr → Branch → Prop
  | .setReadCallback ptr none _, p, .read => p = ptr
  | .setWriteCallback ptr none _, p, .write => p = ptr
  | .setErrorCallback ptr none, p, .error => p = ptr
  | _, _, _ => False

/-- The call starts a timer with this callback. -/
def IOCall.Starts : IOCall C → Option C → Prop
  | .startTimer _ _ cb _, cb' => cb' = cb
  | _, _ => False

namespace IOService

variable {s s' : IOService C} {ptr : DevicePtr} {d d' : IODevice C}
  {c : IOCall C} {l outs : List (IOOutput C)} {ev : EpollEvent}

/-! ## Devices and the interest list -/

/-- The serial numbers tell devices apart, and the kernel has the addresses of attached
devices only. -/
structure Coherent (s : IOService C) : Prop where
  serial_lt : ∀ ptr d, s.device ptr = some d → d.serial < s.serials
  serial_inj : ∀ ptr ptr' d d', s.device ptr = some d → s.device ptr' = some d' →
    d.serial = d'.serial → ptr = ptr'
  registered : ∀ fd r, s.epoll fd = some r → ∃ d, s.device r.ptr = some d ∧
    d.serial = r.serial ∧ d.ioService = some .this ∧ d.fd = fd

theorem coherent_init : Coherent (init : IOService C) where
  serial_lt _ _ h := by cases h
  serial_inj _ _ _ _ h := by cases h
  registered _ _ h := by cases h

theorem update_eq_some {α β : Type} [DecidableEq α] {f : α → Option β} {a b : α} {v : Option β}
    {x : β} (h : Function.update f a v b = some x) : (b = a ∧ v = some x) ∨ (b ≠ a ∧ f b = some x) := by
  by_cases hb : b = a
  · subst hb
    exact .inl ⟨rfl, by simpa using h⟩
  · exact .inr ⟨hb, by simpa [Function.update_of_ne hb] using h⟩

/-- An assignment to one device, and to the entries of the interest list that are its
own. -/
theorem Coherent.assign (hs : Coherent s) (d' : IODevice C) (hd : s.device ptr = some d)
    (hserial : d'.serial = d.serial) (hdevice : s'.device = Function.update s.device ptr (some d'))
    (hserials : s'.serials = s.serials)
    (hepoll : ∀ fd r, s'.epoll fd = some r → (s.epoll fd = some r ∧ r.ptr ≠ ptr) ∨
      (r.ptr = ptr ∧ r.serial = d.serial ∧ d'.ioService = some .this ∧ d'.fd = fd)) :
    Coherent s' := by
  -- the device at an address has the serial number that one there had before
  have hback : ∀ q e, s'.device q = some e → ∃ e₀, s.device q = some e₀ ∧ e.serial = e₀.serial := by
    intro q e he
    rw [hdevice] at he
    rcases update_eq_some he with ⟨rfl, hnew⟩ | ⟨-, he⟩
    · cases hnew
      exact ⟨d, hd, hserial⟩
    · exact ⟨e, he, rfl⟩
  refine ⟨fun q e he => ?_, fun q q' e e' he he' heq => ?_, fun fd r hr => ?_⟩
  · obtain ⟨e₀, he₀, hsame⟩ := hback q e he
    rw [hserials, hsame]
    exact hs.serial_lt q e₀ he₀
  · obtain ⟨e₀, he₀, hsame⟩ := hback q e he
    obtain ⟨e₁, he₁, hsame'⟩ := hback q' e' he'
    exact hs.serial_inj q q' e₀ e₁ he₀ he₁ (by rw [← hsame, heq, hsame'])
  · rw [hdevice]
    rcases hepoll fd r hr with ⟨hold, hne⟩ | ⟨rfl, hnum, hthis, hfd⟩
    · rw [Function.update_of_ne hne]
      exact hs.registered fd r hold
    · exact ⟨d', Function.update_self .., hserial.trans hnum.symm, hthis, hfd⟩

/-- An entry of the interest list that is not the device's own. -/
theorem Coherent.own (hs : Coherent s) (hd : s.device ptr = some d) {fd : Int} {r : EpollEvent}
    (hr : s.epoll fd = some r) :
    r.ptr ≠ ptr ∨ (r.ptr = ptr ∧ r.serial = d.serial ∧ d.ioService = some .this ∧ d.fd = fd) := by
  obtain ⟨e, he, hnum, hthis, hfd⟩ := hs.registered fd r hr
  by_cases hptr : r.ptr = ptr
  · rw [hptr, hd] at he
    cases he
    exact .inr ⟨hptr, hnum.symm, hthis, hfd⟩
  · exact .inl hptr

/-- An assignment that leaves the descriptor and the service as they are. -/
theorem Coherent.setDevice (hs : Coherent s) (hd : s.device ptr = some d)
    (hserial : d'.serial = d.serial) (hservice : d'.ioService = d.ioService)
    (hfd : d'.fd = d.fd) : Coherent (s.setDevice ptr d') := by
  refine hs.assign d' hd hserial rfl rfl fun fd r hr => ?_
  rcases hs.own hd hr with hne | ⟨hptr, hnum, hthis, hat⟩
  · exact .inl ⟨hr, hne⟩
  · exact .inr ⟨hptr, hnum, hservice.trans hthis, hfd.trans hat⟩

/-- A detached device may be given any descriptor or service: it has no entry. -/
theorem Coherent.setDetached (hs : Coherent s) (hd : s.device ptr = some d)
    (hnone : d.ioService ≠ some .this) (hserial : d'.serial = d.serial) :
    Coherent (s.setDevice ptr d') := by
  refine hs.assign d' hd hserial rfl rfl fun fd r hr => ?_
  rcases hs.own hd hr with hne | ⟨-, -, hthis, -⟩
  · exact .inl ⟨hr, hne⟩
  · exact absurd hthis hnone

theorem Coherent.assignCallback (hs : Coherent s) (hd : s.device ptr = some d)
    (hserial : d'.serial = d.serial) (hservice : d'.ioService = d.ioService)
    (hfd : d'.fd = d.fd) (ok : Bool) : Coherent (s.assignCallback ptr d' ok) := by
  have hset := hs.setDevice hd hserial hservice hfd
  rw [IOService.assignCallback]
  split
  next hthis =>
    rw [updateIODevice]
    split
    · refine hset.assign d' (Function.update_self ..) rfl ?_ rfl fun fd r hr => ?_
      · exact (Function.update_idem ..).symm
      · rcases update_eq_some hr with ⟨rfl, hnew⟩ | ⟨-, hr⟩
        · cases hnew
          exact .inr ⟨rfl, rfl, hthis, rfl⟩
        · rcases hset.own (Function.update_self ..) hr with hne | hsame
          · exact .inl ⟨hr, hne⟩
          · exact .inr hsame
    · exact hset
  · exact hset

theorem Coherent.detach (hs : Coherent s) (hd : s.device ptr = some d) :
    Coherent (s.detachIOService ptr d).1 := by
  rw [detachIOService]
  split
  · exact hs
  next hother => exact hs.setDetached hd (by simp [hother]) rfl
  · refine hs.assign { d with ioService := none } hd rfl rfl rfl fun fd r hr => ?_
    rcases update_eq_some hr with ⟨-, hr⟩ | ⟨hother, hr⟩
    · cases hr
    · rcases hs.own hd hr with hne | ⟨-, -, -, hat⟩
      · exact .inl ⟨hr, hne⟩
      · exact absurd hat.symm hother

/-- What `detachIOService` leaves of the device. -/
theorem detach_device (hd : s.device ptr = some d) :
    (s.detachIOService ptr d).1.device ptr = some { d with ioService := none } := by
  rw [detachIOService]
  split
  next hnone => rw [hd, ← hnone]
  · exact Function.update_self ..
  · exact Function.update_self ..

theorem Coherent.attach (hs : Coherent s) (hd : s.device ptr = some d) (service : ServiceRef)
    (ok : Bool) : Coherent (s.attachIOService ptr d service ok).1 := by
  have hdetached := hs.detach hd
  have hafter := detach_device hd
  rw [attachIOService]
  generalize s.detachIOService ptr d = r at hdetached hafter ⊢
  obtain ⟨s₁, outs⟩ := r
  cases service with
  | other =>
    dsimp only
    split
    · exact hdetached.setDetached hafter (by simp) rfl
    · exact hdetached
  | this =>
    dsimp only [addIODevice] at hafter ⊢
    split
    next heq =>
      split at heq
      · cases heq
      · cases heq
        exact hdetached
    next heq =>
      split at heq
      · cases heq
        refine hdetached.assign { d with ioService := some .this } hafter rfl rfl rfl
          fun fd r hr => ?_
        rcases update_eq_some hr with ⟨rfl, hnew⟩ | ⟨-, hr⟩
        · cases hnew
          exact .inr ⟨rfl, rfl, rfl, rfl⟩
        · rcases hdetached.own hafter hr with hne | ⟨-, -, hthis, -⟩
          · exact .inl ⟨hr, hne⟩
          · cases hthis
      · cases heq

theorem Coherent.create (hs : Coherent s) (hnone : s.device ptr = none) :
    Coherent (s.create ptr) := by
  have hnew : ∀ q e, (s.create ptr).device q = some e → (q = ptr ∧ e.serial = s.serials) ∨
      (q ≠ ptr ∧ s.device q = some e) := by
    intro q e he
    rcases update_eq_some he with ⟨rfl, hnew⟩ | ⟨hq, he⟩
    · cases hnew
      exact .inl ⟨rfl, rfl⟩
    · exact .inr ⟨hq, he⟩
  refine ⟨fun q e he => ?_, fun q q' e e' he he' heq => ?_, fun fd r hr => ?_⟩
  · rcases hnew q e he with ⟨-, hnum⟩ | ⟨-, hold⟩
    · exact hnum ▸ Nat.lt_succ_self _
    · exact Nat.lt_succ_of_lt (hs.serial_lt q e hold)
  · rcases hnew q e he with ⟨rfl, hnum⟩ | ⟨hq, hold⟩ <;>
      rcases hnew q' e' he' with ⟨rfl, hnum'⟩ | ⟨hq', hold'⟩
    · rfl
    · exact absurd (heq.symm.trans hnum) (hs.serial_lt q' e' hold').ne
    · exact absurd (heq.trans hnum') (hs.serial_lt q e hold).ne
    · exact hs.serial_inj q q' e e' hold hold' heq
  · obtain ⟨e, he, hrest⟩ := hs.registered fd r hr
    have hne : r.ptr ≠ ptr := by
      rintro rfl
      rw [hnone] at he
      cases he
    exact ⟨e, (Function.update_of_ne hne ..).trans he, hrest⟩

theorem Coherent.destroy (hs : Coherent s) (hd : s.device ptr = some d) :
    Coherent (s.destroy ptr d).1 := by
  have hdetached := hs.detach hd
  have hafter := detach_device hd
  rw [IOService.destroy]
  generalize s.detachIOService ptr d = r at hdetached hafter ⊢
  obtain ⟨s₁, outs⟩ := r
  dsimp only at hafter hdetached ⊢
  have hold : ∀ q e, Function.update s₁.device ptr none q = some e → s₁.device q = some e := by
    intro q e he
    rcases update_eq_some he with ⟨-, he⟩ | ⟨-, he⟩
    · cases he
    · exact he
  refine ⟨fun q e he => hdetached.serial_lt q e (hold q e he),
    fun q q' e e' he he' => hdetached.serial_inj q q' e e' (hold q e he) (hold q' e' he'),
    fun fd r hr => ?_⟩
  obtain ⟨e, he, hnum, hthis, hfd⟩ := hdetached.registered fd r hr
  have hne : r.ptr ≠ ptr := by
    intro hptr
    rw [hptr, hafter] at he
    cases he
    cases hthis
  exact ⟨e, (Function.update_of_ne hne ..).trans he, hnum, hthis, hfd⟩

theorem Coherent.close (hs : Coherent s) (fd : Int) :
    Coherent { s with epoll := Function.update s.epoll fd none } := by
  refine ⟨hs.serial_lt, hs.serial_inj, fun fd' r hr => ?_⟩
  rcases update_eq_some hr with ⟨-, hr⟩ | ⟨-, hr⟩
  · cases hr
  · exact hs.registered fd' r hr

/-! ## What a call leaves of the devices -/

/-- The device at `ptr` has this serial number and is attached to the service. -/
def Attached (s : IOService C) (ptr : DevicePtr) (d : IODevice C) : Prop :=
  s.device ptr = some d ∧ d.ioService = some .this

/-- A call leaves an attached device attached, with the callbacks that it does not clear, or
its address is among the removed ones afterwards. -/
structure Kept (c : IOCall C) (s s' : IOService C) (outs : List (IOOutput C)) : Prop where
  control : s'.control = s.control
  removed : ∀ p, s.removedIODevices p = true → s'.removedIODevices p = true
  attached : ∀ p d, s.Attached p d → s'.removedIODevices p = true ∨ ∃ d', s'.Attached p d' ∧
    d'.serial = d.serial ∧ ∀ b, d.callback b ≠ none → d'.callback b ≠ none ∨ c.Clears p b
  outs : outs = [] ∨ ∃ p d, s.Attached p d ∧ outs = [.removed d.serial] ∧
    s'.removedIODevices p = true
  timers : ∀ id t, s'.timerHeap.find? id = some t →
    s.timerHeap.find? id = some t ∨ c.Starts t.timerCb

/-- The devices are as they were. -/
theorem Kept.of_eq (hcontrol : s'.control = s.control)
    (hremoved : s'.removedIODevices = s.removedIODevices) (hdevice : s'.device = s.device)
    (htimers : ∀ id t, s'.timerHeap.find? id = some t →
      s.timerHeap.find? id = some t ∨ c.Starts t.timerCb) : Kept c s s' [] where
  control := hcontrol
  removed p hp := by rw [hremoved, hp]
  attached p d hd := .inr ⟨d, ⟨by rw [hdevice, hd.1], hd.2⟩, rfl, fun _ h => .inl h⟩
  outs := .inl rfl
  timers := htimers

/-- One device is assigned to that stays attached if it was. -/
theorem Kept.of_update (hcontrol : s'.control = s.control) (htimers : s'.timerHeap = s.timerHeap)
    (hremoved : s'.removedIODevices = s.removedIODevices) (hd : s.device ptr = some d)
    (hdevice : s'.device = Function.update s.device ptr (some d')) (hserial : d'.serial = d.serial)
    (hservice : d.ioService = some .this → d'.ioService = some .this)
    (hcallback : ∀ b, d.callback b ≠ none → d'.callback b ≠ none ∨ c.Clears ptr b) :
    Kept c s s' [] where
  control := hcontrol
  removed p hp := by rw [hremoved, hp]
  attached p e he := by
    refine .inr ?_
    by_cases hp : p = ptr
    · subst hp
      obtain rfl : d = e := Option.some.inj (hd.symm.trans he.1)
      exact ⟨d', ⟨by rw [hdevice, Function.update_self], hservice he.2⟩, hserial, hcallback⟩
    · exact ⟨e, ⟨by rw [hdevice, Function.update_of_ne hp, he.1], he.2⟩, rfl, fun _ h => .inl h⟩
  outs := .inl rfl
  timers id t ht := .inl (htimers ▸ ht)

/-- Nothing is attached at the only address where something changes. -/
theorem Kept.of_detached (ptr : DevicePtr) (hfree : ∀ d, ¬s.Attached ptr d) (hcontrol : s'.control = s.control)
    (htimers : s'.timerHeap = s.timerHeap) (hremoved : s'.removedIODevices = s.removedIODevices)
    (hdevice : ∀ p, p ≠ ptr → s'.device p = s.device p) : Kept c s s' [] where
  control := hcontrol
  removed p hp := by rw [hremoved, hp]
  attached p e he := by
    have hp : p ≠ ptr := by
      rintro rfl
      exact hfree e he
    exact .inr ⟨e, ⟨by rw [hdevice p hp, he.1], he.2⟩, rfl, fun _ h => .inl h⟩
  outs := .inl rfl
  timers id t ht := .inl (htimers ▸ ht)

/-- The device at the only address where something changes is removed. -/
theorem Kept.of_removed (hd : s.Attached ptr d) (hcontrol : s'.control = s.control)
    (htimers : s'.timerHeap = s.timerHeap)
    (hremoved : s'.removedIODevices = Function.update s.removedIODevices ptr true)
    (hdevice : ∀ p, p ≠ ptr → s'.device p = s.device p) :
    Kept c s s' [.removed d.serial] where
  control := hcontrol
  removed p hp := by
    rw [hremoved]
    by_cases hptr : p = ptr
    · subst hptr
      exact Function.update_self ..
    · rwa [Function.update_of_ne hptr]
  attached p e he := by
    by_cases hptr : p = ptr
    · subst hptr
      exact .inl (by rw [hremoved, Function.update_self])
    · exact .inr ⟨e, ⟨by rw [hdevice p hptr, he.1], he.2⟩, rfl, fun _ h => .inl h⟩
  outs := .inr ⟨ptr, d, hd, rfl, by rw [hremoved, Function.update_self]⟩
  timers id t ht := .inl (htimers ▸ ht)

/-- After `detachIOService` anything may be done to the device it was called on. -/
theorem Kept.of_detach (hd : s.device ptr = some d) (hcontrol : s'.control = s.control)
    (htimers : s'.timerHeap = s.timerHeap)
    (hremoved : s'.removedIODevices = (s.detachIOService ptr d).1.removedIODevices)
    (hdevice : ∀ p, p ≠ ptr → s'.device p = s.device p) :
    Kept c s s' (s.detachIOService ptr d).2 := by
  have hfree : d.ioService ≠ some .this → ∀ e, ¬s.Attached ptr e := by
    rintro hnot e ⟨he, hthis⟩
    rw [hd] at he
    cases he
    exact hnot hthis
  rw [detachIOService] at hremoved ⊢
  split at hremoved
  next hnone => exact .of_detached ptr (hfree (by simp [hnone])) hcontrol htimers hremoved hdevice
  next hother => exact .of_detached ptr (hfree (by simp [hother])) hcontrol htimers hremoved hdevice
  next hthis => exact .of_removed ⟨hd, hthis⟩ hcontrol htimers hremoved hdevice

theorem detach_frame (s : IOService C) (ptr : DevicePtr) (d : IODevice C) :
    (s.detachIOService ptr d).1.control = s.control ∧
      (s.detachIOService ptr d).1.timerHeap = s.timerHeap ∧
      ∀ p, p ≠ ptr → (s.detachIOService ptr d).1.device p = s.device p := by
  rw [detachIOService]
  split
  · exact ⟨rfl, rfl, fun _ _ => rfl⟩
  · exact ⟨rfl, rfl, fun p hp => Function.update_of_ne hp ..⟩
  · exact ⟨rfl, rfl, fun p hp => Function.update_of_ne hp ..⟩

/-- `attachIOService` detaches the device and then changes nothing else. -/
theorem attach_frame (s : IOService C) (ptr : DevicePtr) (d : IODevice C) (service : ServiceRef)
    (ok : Bool) :
    (s.attachIOService ptr d service ok).1.control = s.control ∧
      (s.attachIOService ptr d service ok).1.timerHeap = s.timerHeap ∧
      (s.attachIOService ptr d service ok).1.removedIODevices =
        (s.detachIOService ptr d).1.removedIODevices ∧
      (s.attachIOService ptr d service ok).2 = (s.detachIOService ptr d).2 ∧
      ∀ p, p ≠ ptr → (s.attachIOService ptr d service ok).1.device p = s.device p := by
  obtain ⟨hcontrol, htimers, hdevice⟩ := detach_frame s ptr d
  rw [attachIOService]
  generalize s.detachIOService ptr d = r at hcontrol htimers hdevice ⊢
  obtain ⟨s₁, outs⟩ := r
  have hset : ∀ (s₂ : IOService C) (d' : IODevice C), s₂.device = s₁.device → ∀ p, p ≠ ptr →
      (s₂.setDevice ptr d').device p = s.device p := by
    intro s₂ d' heq p hp
    rw [IOService.setDevice, ← hdevice p hp, ← heq]
    exact Function.update_of_ne hp ..
  cases service with
  | other =>
    dsimp only
    split
    · exact ⟨hcontrol, htimers, rfl, rfl, hset s₁ _ rfl⟩
    · exact ⟨hcontrol, htimers, rfl, rfl, hdevice⟩
  | this =>
    dsimp only [addIODevice]
    split
    next heq =>
      split at heq
      · cases heq
      · cases heq
        exact ⟨hcontrol, htimers, rfl, rfl, hdevice⟩
    next heq =>
      split at heq
      · cases heq
        exact ⟨hcontrol, htimers, rfl, rfl, hset _ _ rfl⟩
      · cases heq

/-- An assignment to the callbacks of a device. -/
theorem assign_spec (hs : Coherent s) (hw : s.timerHeap.Wf) (d' : IODevice C) (hd : s.device ptr = some d)
    (hserial : d'.serial = d.serial) (hservice : d'.ioService = d.ioService) (hfd : d'.fd = d.fd)
    (ok : Bool) (hcallback : ∀ b, d.callback b ≠ none → d'.callback b ≠ none ∨ c.Clears ptr b) :
    Coherent (s.assignCallback ptr d' ok) ∧ (s.assignCallback ptr d' ok).timerHeap.Wf ∧
      Kept c s (s.assignCallback ptr d' ok) [] := by
  have hthis : d.ioService = some .this → d'.ioService = some .this := hservice.trans
  have hcoherent := hs.assignCallback hd hserial hservice hfd ok
  rw [assignCallback] at hcoherent ⊢
  split
  next hif =>
    rw [if_pos hif] at hcoherent
    rw [updateIODevice] at hcoherent ⊢
    split
    next hok =>
      rw [if_pos hok] at hcoherent
      exact ⟨hcoherent, hw, .of_update rfl rfl rfl hd rfl hserial hthis hcallback⟩
    next hok =>
      rw [if_neg hok] at hcoherent
      exact ⟨hcoherent, hw, .of_update rfl rfl rfl hd rfl hserial hthis hcallback⟩
  next hif =>
    rw [if_neg hif] at hcoherent
    exact ⟨hcoherent, hw, .of_update rfl rfl rfl hd rfl hserial hthis hcallback⟩

/-- Every call can be made in a coherent state, if the object it is made on exists. -/
theorem call_spec (hs : Coherent s) (hw : s.timerHeap.Wf) (c : IOCall C) :
    Ensures (fun e => e = .noStep)
      (fun r => Coherent r.1 ∧ r.1.timerHeap.Wf ∧ Kept c s r.1 r.2) (s.call c) := by
  have hdevice : ∀ {ptr} {f : IODevice C → Except IOFault (IOService C × List (IOOutput C))},
      (∀ d, s.device ptr = some d → Ensures (fun e => e = .noStep)
        (fun r => Coherent r.1 ∧ r.1.timerHeap.Wf ∧ Kept c s r.1 r.2) (f d)) →
      Ensures (fun e => e = .noStep)
        (fun r => Coherent r.1 ∧ r.1.timerHeap.Wf ∧ Kept c s r.1 r.2) (s.deviceAt ptr >>= f) := by
    intro ptr f hf
    rw [deviceAt]
    cases hd : s.device ptr with
    | none => exact .error rfl
    | some d => exact hf d hd
  cases c with
  | create ptr =>
    rw [call]
    cases hd : s.device ptr with
    | some d => exact .error rfl
    | none =>
      refine .ok ⟨hs.create hd, hw, .of_detached ptr ?_ rfl rfl rfl ?_⟩
      · rintro d ⟨h, -⟩
        rw [hd] at h
        cases h
      · exact fun p hp => Function.update_of_ne hp ..
  | destroy ptr =>
    refine hdevice fun d hd => .ok ?_
    obtain ⟨hcontrol, htimers, hframe⟩ := detach_frame s ptr d
    refine ⟨hs.destroy hd, htimers ▸ hw, .of_detach hd hcontrol htimers rfl fun p hp => ?_⟩
    exact (Function.update_of_ne hp ..).trans (hframe p hp)
  | attachIOService ptr service ok =>
    refine hdevice fun d hd => .ok ?_
    obtain ⟨hcontrol, htimers, hremoved, houts, hframe⟩ := attach_frame s ptr d service ok
    refine ⟨hs.attach hd service ok, htimers ▸ hw, ?_⟩
    rw [houts]
    exact .of_detach hd hcontrol htimers hremoved hframe
  | detachIOService ptr =>
    refine hdevice fun d hd => .ok ?_
    obtain ⟨hcontrol, htimers, hframe⟩ := detach_frame s ptr d
    exact ⟨hs.detach hd, htimers ▸ hw, .of_detach hd hcontrol htimers rfl hframe⟩
  | setDescriptor ptr fd =>
    refine hdevice fun d hd => ?_
    split
    next hnone =>
      refine .ok ⟨hs.setDetached hd (by simp [hnone]) rfl, hw, ?_⟩
      exact .of_update rfl rfl rfl hd rfl rfl (by simp [hnone]) fun b hb => .inl (by cases b <;> exact hb)
    · exact .error rfl
  | close fd => exact .ok ⟨hs.close fd, hw, .of_eq rfl rfl rfl fun _ _ ht => .inl ht⟩
  | setReadCallback ptr cb ok =>
    refine hdevice fun d hd => .ok ?_
    refine assign_spec hs hw { d with readCb := cb } hd rfl rfl rfl ok fun b hb => ?_
    cases b with
    | read =>
      cases cb with
      | none => exact .inr rfl
      | some cb => exact .inl (Option.some_ne_none cb)
    | write | error => exact .inl hb
  | setWriteCallback ptr cb ok =>
    refine hdevice fun d hd => .ok ?_
    refine assign_spec hs hw { d with writeCb := cb } hd rfl rfl rfl ok fun b hb => ?_
    cases b with
    | write =>
      cases cb with
      | none => exact .inr rfl
      | some cb => exact .inl (Option.some_ne_none cb)
    | read | error => exact .inl hb
  | setErrorCallback ptr cb =>
    refine hdevice fun d hd => .ok ⟨hs.setDevice hd rfl rfl rfl, hw, ?_⟩
    refine .of_update rfl rfl rfl hd rfl rfl id fun b hb => ?_
    cases b with
    | error =>
      cases cb with
      | none => exact .inr rfl
      | some cb => exact .inl (Option.some_ne_none cb)
    | read | write => exact .inl hb
  | startTimer now timeoutMs cb callTimes =>
    obtain ⟨heap, r, hadd, hw', -, hfind⟩ := hw.addTimer now timeoutMs cb callTimes
    rw [call, hadd]
    refine .ok ⟨⟨hs.serial_lt, hs.serial_inj, hs.registered⟩, hw', .of_eq rfl rfl rfl ?_⟩
    intro id t ht
    split at hfind
    · obtain ⟨-, hfind⟩ := hfind
      dsimp only at ht
      rw [hfind] at ht
      rcases update_eq_some ht with ⟨-, hnew⟩ | ⟨-, hold⟩
      · cases hnew
        exact .inr rfl
      · exact .inl hold
    · exact .inl (hfind.2 ▸ ht)
  | stopTimer timerId =>
    obtain ⟨heap, hremove, hw', -, hfind⟩ := hw.removeTimer timerId
    rw [call, hremove]
    refine .ok ⟨⟨hs.serial_lt, hs.serial_inj, hs.registered⟩, hw', .of_eq rfl rfl rfl ?_⟩
    intro id t ht
    dsimp only at ht
    rw [hfind] at ht
    rcases update_eq_some ht with ⟨-, hnew⟩ | ⟨-, hold⟩
    · cases hnew
    · exact .inl hold
  | quit =>
    exact .ok ⟨⟨hs.serial_lt, hs.serial_inj, hs.registered⟩, hw,
      .of_eq rfl rfl rfl fun _ _ ht => .inl ht⟩

/-! ## What the loop does next -/

/-- The branches of some events. -/
def pendingOf (events : List EpollEvent) : List (EpollEvent × Branch) :=
  events.flatMap fun ev => [.write, .read, .error].map fun b => (ev, b)

/-- The branches that the loop has not come to yet. -/
def pending (s : IOService C) : List (EpollEvent × Branch) :=
  match s.control with
  | .event _ ev branches rest => branches.map (fun b => (ev, b)) ++ pendingOf rest
  | _ => []

/-- The event is about a device that has been removed, or about the one at its address. -/
def Current (s : IOService C) (ev : EpollEvent) : Prop :=
  s.removedIODevices ev.ptr = true ∨ ∃ d, s.Attached ev.ptr d ∧ d.serial = ev.serial

/-- A callback is called for one of these branches, and others of them are left. -/
inductive Dispatched (s : IOService C) (branches : List (EpollEvent × Branch)) :
    IOService C × List (IOOutput C) → Prop where
  | intro {s' ev b d cb} (hmem : (ev, b) ∈ branches) (hhas : ev.events.has b = true)
      (hremoved : s.removedIODevices ev.ptr = false) (hd : s.Attached ev.ptr d)
      (hserial : d.serial = ev.serial) (hcb : d.callback b = some cb)
      (hcontrol : s' = { s with control := s'.control })
      (hpending : ∀ x ∈ s'.pending, x ∈ branches) :
      Dispatched s branches (s', [.invoked b ev.ptr d.serial cb])

/-- One of these branches calls an empty `Function`. -/
def Empty (s : IOService C) (branches : List (EpollEvent × Branch)) : Prop :=
  ∃ ev b d, (ev, b) ∈ branches ∧ b ≠ .error ∧ ev.events.has b = true ∧
    s.removedIODevices ev.ptr = false ∧ s.Attached ev.ptr d ∧ d.callback b = none

theorem Dispatched.mono {bs bs' : List (EpollEvent × Branch)}
    {r : IOService C × List (IOOutput C)} (h : Dispatched s bs r) (hsub : ∀ x ∈ bs, x ∈ bs') :
    Dispatched s bs' r := by
  cases h with
  | intro hmem hhas hremoved hd hserial hcb hcontrol hpending =>
    exact .intro (hsub _ hmem) hhas hremoved hd hserial hcb hcontrol
      fun x hx => hsub x (hpending x hx)

theorem Empty.mono {bs bs' : List (EpollEvent × Branch)} (h : Empty s bs)
    (hsub : ∀ x ∈ bs, x ∈ bs') : Empty s bs' := by
  obtain ⟨ev, b, d, hmem, hrest⟩ := h
  exact ⟨ev, b, d, hsub _ hmem, hrest⟩

theorem handleEvent_spec (count : Nat) (rest : List EpollEvent) (branches : List Branch)
    (hev : ∀ b ∈ branches, s.Current ev) :
    Ensures
      (fun e => e = .emptyFunction ∧ Empty s (branches.map fun b => (ev, b)))
      (fun r => ∀ x ∈ r, Dispatched s (branches.map (fun b => (ev, b)) ++ pendingOf rest) x)
      (s.handleEvent count ev rest branches) := by
  induction branches with
  | nil => exact .ok fun x hx => by cases hx
  | cons b branches ih =>
    have hcurrent := hev b (List.mem_cons_self ..)
    have hrest : Ensures
        (fun e => e = .emptyFunction ∧ Empty s ((b :: branches).map fun b => (ev, b)))
        (fun r => ∀ x ∈ r,
          Dispatched s ((b :: branches).map (fun b => (ev, b)) ++ pendingOf rest) x)
        (s.handleEvent count ev rest branches) :=
      (ih fun _ _ => hcurrent).mono
        (fun r hr x hx => (hr x hx).mono fun y hy => List.mem_cons_of_mem _ hy)
        (fun e he => ⟨he.1, he.2.mono fun y hy => List.mem_cons_of_mem _ hy⟩)
    rw [handleEvent]
    split
    next hhas =>
      split
      · exact .ok fun x hx => by cases hx
      next hexist =>
        have hstays : s.removedIODevices ev.ptr = false := by
          simpa [checkIODeviceExist] using hexist
        rcases hcurrent with hremoved | ⟨d, hd, hserial⟩
        · rw [hstays] at hremoved
          cases hremoved
        · rw [hd.1]
          dsimp only
          cases hcb : d.callback b with
          | some cb =>
            refine .ok fun x hx => ?_
            cases hx
            refine .intro (List.mem_cons_self ..) hhas hstays hd hserial hcb rfl fun y hy => ?_
            exact List.mem_cons_of_mem _ hy
          | none =>
            dsimp only
            split
            · exact hrest
            next herror =>
              exact .error ⟨rfl, ev, b, d, List.mem_cons_self .., herror, hhas, hstays, hd, hcb⟩
    · exact hrest

theorem handleEvents_spec (count : Nat) (events : List EpollEvent)
    (hev : ∀ ev ∈ events, s.Current ev) :
    Ensures (fun e => e = .emptyFunction ∧ Empty s (pendingOf events))
      (fun r => ∀ x ∈ r, Dispatched s (pendingOf events) x) (s.handleEvents count events) := by
  induction events with
  | nil => exact .ok fun x hx => by cases hx
  | cons ev rest ih =>
    have hhead := handleEvent_spec count rest [.write, .read, .error]
      fun _ _ => hev ev (List.mem_cons_self ..)
    have hrest := ih fun ev' hmem => hev ev' (List.mem_cons_of_mem _ hmem)
    have hsub : ∀ x ∈ pendingOf rest, x ∈ pendingOf (ev :: rest) := fun x hx => by
      rw [pendingOf, List.flatMap_cons]
      exact List.mem_append_right _ hx
    have herror : ∀ e : IOFault, (e = .emptyFunction ∧
        Empty s ([Branch.write, .read, .error].map fun b => (ev, b))) →
        e = .emptyFunction ∧ Empty s (pendingOf (ev :: rest)) := by
      rintro e ⟨rfl, hempty⟩
      refine ⟨rfl, hempty.mono fun x hx => ?_⟩
      rw [pendingOf, List.flatMap_cons]
      exact List.mem_append_left _ hx
    rw [handleEvents]
    refine (hhead.mono (fun _ h => h) herror).bind fun r hr => ?_
    · cases r with
      | some x => exact .ok fun y hy => by cases hy; exact hr _ rfl
      | none =>
        exact hrest.mono (fun r hr x hx => (hr x hx).mono hsub)
          fun e he => ⟨he.1, he.2.mono hsub⟩

/-- A timer in the heap has an empty callback. -/
def EmptyTimer (s : IOService C) : Prop :=
  ∃ id, ∃ t ∈ s.timerHeap.find? id, t.timerCb = none

/-- The timers have their turn: one calls its callback, or the loop comes to its test. -/
inductive TimersHandled (s : IOService C) (count : Nat) (now : Timestamp) :
    IOService C × List (IOOutput C) → Prop where
  | fired {heap id t cb} (hw : heap.Wf) (ht : s.timerHeap.find? id = some t)
      (hcb : t.timerCb = some cb)
      (hfind : heap.find? = Function.update s.timerHeap.find? id
        (if t.callTimes = 1 then none else some t.next)) :
      TimersHandled s count now
        ({ s with timerHeap := heap, control := .timer count now }, [.timeout id cb])
  | finished {size} :
      TimersHandled s count now
        (next { s with removedIODevices := fun _ => false, events := size }, [])

theorem handleTimers_spec (hw : s.timerHeap.Wf) (count : Nat) (now : Timestamp) :
    Ensures (fun e => e = .emptyFunction ∧ EmptyTimer s) (TimersHandled s count now)
      (s.handleTimers count now) := by
  rw [handleTimers]
  rcases hw.checkTimeout now with hnone | ⟨heap, t, hfire, hw', ht, -, hfind⟩
  · rw [hnone]
    exact .ok .finished
  · rw [hfire]
    dsimp only
    cases hcb : t.timerCb with
    | none => exact .error ⟨rfl, t.id, t, ht, hcb⟩
    | some cb => exact .ok (.fired hw' ht hcb hfind)

/-- What is left of an event is handled, then the events after it, then the timers. -/
theorem proceed_spec (hw : s.timerHeap.Wf) (count : Nat) (bs : List (EpollEvent × Branch))
    {handled : Except IOFault (Option (IOService C × List (IOOutput C)))} {rest : List EpollEvent}
    (hhandled : Ensures (fun e => e = .emptyFunction ∧ Empty s bs)
      (fun r => ∀ x ∈ r, Dispatched s (bs ++ pendingOf rest) x) handled)
    (hev : ∀ ev ∈ rest, s.Current ev) (now : Timestamp) :
    Ensures
      (fun e => e = .emptyFunction ∧ (Empty s (bs ++ pendingOf rest) ∨ EmptyTimer s))
      (fun r => Dispatched s (bs ++ pendingOf rest) r ∨ TimersHandled s count now r)
      (s.proceed count handled rest now) := by
  rw [proceed]
  refine (hhandled.mono (fun r hr => hr) fun e he =>
    ⟨he.1, .inl (he.2.mono fun x hx => List.mem_append_left _ hx)⟩).bind fun r hr => ?_
  cases r with
  | some x => exact .ok (.inl (hr x rfl))
  | none =>
    refine ((handleEvents_spec count rest hev).mono (fun r hr => hr) fun e he =>
      ⟨he.1, .inl (he.2.mono fun x hx => List.mem_append_right _ hx)⟩).bind fun r hr => ?_
    cases r with
    | some x => exact .ok (.inl ((hr x rfl).mono fun y hy => List.mem_append_right _ hy))
    | none =>
      exact (handleTimers_spec hw count now).mono (fun r hr => .inr hr) fun e he =>
        ⟨he.1, .inr he.2⟩

/-! ## One step -/

/-- The kernel returns the event for a descriptor in the interest list. -/
def Fetched (s : IOService C) (ready : List (Int × EpollEvents)) (ev : EpollEvent) : Prop :=
  ∃ x ∈ ready, ∃ r, s.epoll x.1 = some r ∧ ev = { r with events := x.2 }

theorem Fetched.attached (hs : Coherent s) {ready : List (Int × EpollEvents)}
    (h : Fetched s ready ev) : ∃ d, s.Attached ev.ptr d ∧ d.serial = ev.serial := by
  obtain ⟨x, -, r, hr, rfl⟩ := h
  obtain ⟨d, hd, hserial, hthis, -⟩ := hs.registered x.1 r hr
  exact ⟨d, ⟨hd, hthis⟩, hserial⟩

/-- What a step leads to. -/
inductive Stepped (s : IOService C) : IOOp C → IOService C × List (IOOutput C) → Prop where
  | called {c r} (hs : Coherent r.1) (hw : r.1.timerHeap.Wf) (hk : Kept c s r.1 r.2) :
      Stepped s (.call c) r
  | looped {op outs s'} (hcontrol : s'.pending = []) (hdevice : s'.device = s.device)
      (hserials : s'.serials = s.serials) (hepoll : s'.epoll = s.epoll)
      (htimers : s'.timerHeap = s.timerHeap)
      (houts : outs = [] ∨ ∃ timeout, outs = [.waited timeout]) : Stepped s op (s', outs)
  | fetched {before ready now timeout events count r} (hwait : s.pending = [])
      (hevents : ∀ ev ∈ events, Fetched s ready ev)
      (hr : Dispatched s (pendingOf events) r ∨ TimersHandled s count now r) :
      Stepped s (.epollWait before ready now) (r.1, .waited timeout :: .fetched events :: r.2)
  | resumed {now timersNow count r}
      (hr : Dispatched s s.pending r ∨ TimersHandled s count timersNow r) :
      Stepped s (.callbackReturn now) r

/-- How a step stops: there is none, or an empty `Function` would be called. -/
inductive Stops (s : IOService C) : IOOp C → IOFault → Prop where
  | noStep {op} : Stops s op .noStep
  | timer {op} (h : EmptyTimer s) : Stops s op .emptyFunction
  | fetched {before ready now events} (hevents : ∀ ev ∈ events, Fetched s ready ev)
      (h : Empty s (pendingOf events)) : Stops s (.epollWait before ready now) .emptyFunction
  | resumed {now} (h : Empty s s.pending) : Stops s (.callbackReturn now) .emptyFunction

theorem pending_of_control (h : ∀ count ev bs rest, s.control ≠ .event count ev bs rest) :
    s.pending = [] := by
  rw [pending]
  split
  next heq => exact absurd heq (h _ _ _ _)
  · rfl

theorem pending_next (s : IOService C) : s.next.pending = [] := by
  refine pending_of_control fun count ev bs rest => ?_
  rw [next]
  cases s.quit <;> simp

theorem wait_spec (hw : s.timerHeap.Wf) (now : Timestamp) :
    Ensures (fun e => e = .noStep)
      (fun o => s.control = .waiting ∧ ∃ timeout, o = .waited timeout) (s.wait now) := by
  have htimeout : ∃ timeout, s.epollTimeout now = some timeout := by
    rw [epollTimeout, TimerHeap.getNextTimeoutMillisecond]
    cases htop : s.timerHeap.minHeapTop with
    | none => exact ⟨_, rfl⟩
    | some a =>
      obtain ⟨-, t, ht, -⟩ := hw.inv.top htop
      dsimp only
      rw [ht]
      exact ⟨_, rfl⟩
  obtain ⟨timeout, htimeout⟩ := htimeout
  rw [wait, htimeout]
  cases hcontrol : s.control with
  | waiting => exact .ok ⟨rfl, timeout, rfl⟩
  | _ => exact .error rfl

theorem epollEvent_spec (s : IOService C) {ready : List (Int × EpollEvents)}
    {x : Int × EpollEvents} (hx : x ∈ ready) :
    Ensures (fun e => e = .noStep) (Fetched s ready) (s.epollEvent x) := by
  rw [epollEvent]
  cases hr : s.epoll x.1 with
  | none => exact .error rfl
  | some r =>
    dsimp only
    split
    · exact .ok ⟨x, hx, r, hr, rfl⟩
    · exact .error rfl

theorem step_cases (hs : Coherent s) (hw : s.timerHeap.Wf)
    (hcurrent : ∀ x ∈ s.pending, s.Current x.1) (op : IOOp C) :
    Ensures (Stops s op) (Stepped s op) (s.step op) := by
  cases op with
  | call c =>
    rw [step]
    split
    · exact (call_spec hs hw c).mono (fun r hr => .called hr.1 hr.2.1 hr.2.2)
        fun e he => he ▸ .noStep
    · exact .error .noStep
  | loop =>
    rw [step]
    split
    · exact .ok (.looped (pending_next _) rfl rfl rfl rfl (.inl rfl))
    · exact .error .noStep
  | epollWait before ready now =>
    rw [step]
    refine ((wait_spec hw before).mono (fun r hr => hr) fun e he => he ▸ .noStep).bind ?_
    rintro _ ⟨hcontrol, timeout, rfl⟩
    refine ((Ensures.mapM fun x hx => epollEvent_spec s hx).mono (fun r hr => hr)
      fun e he => he ▸ .noStep).bind fun events hevents => ?_
    split
    · exact .error .noStep
    · have hev : ∀ ev ∈ events, s.Current ev := fun ev hmem =>
        .inr ((hevents ev hmem).attached hs)
      have hwait : s.pending = [] := pending_of_control (by simp [hcontrol])
      refine ((proceed_spec hw events.length []
        (.ok fun x hx => by cases hx) hev now).mono (fun r hr => hr) ?_).bind fun r hr => ?_
      · rintro e ⟨rfl, hempty | htimer⟩
        · exact .fetched hevents hempty
        · exact .timer htimer
      · exact .ok (.fetched hwait hevents hr)
  | epollInterrupted before =>
    rw [step]
    refine ((wait_spec hw before).mono (fun r hr => hr) fun e he => he ▸ .noStep).bind ?_
    rintro _ ⟨-, timeout, rfl⟩
    exact .ok (.looped (pending_next _) rfl rfl rfl rfl (.inr ⟨timeout, rfl⟩))
  | epollFailed before =>
    rw [step]
    refine ((wait_spec hw before).mono (fun r hr => hr) fun e he => he ▸ .noStep).bind ?_
    rintro _ ⟨-, timeout, rfl⟩
    exact .ok (.looped rfl rfl rfl rfl rfl (.inr ⟨timeout, rfl⟩))
  | callbackReturn now =>
    rw [step]
    split
    next count ev branches rest hcontrol =>
      have hpending : s.pending = branches.map (fun b => (ev, b)) ++ pendingOf rest := by
        rw [pending, hcontrol]
      have hrest : ∀ ev' ∈ rest, s.Current ev' := by
        intro ev' hmem
        refine hcurrent (ev', .write) ?_
        rw [hpending]
        exact List.mem_append_right _ (List.mem_flatMap.mpr ⟨ev', hmem, List.mem_cons_self ..⟩)
      have hfirst : ∀ b ∈ branches, s.Current ev := by
        intro b hb
        refine hcurrent (ev, b) ?_
        rw [hpending]
        exact List.mem_append_left _ (List.mem_map_of_mem hb)
      refine (proceed_spec hw count _ (handleEvent_spec count rest branches hfirst) hrest now).mono
        (fun r hr => .resumed (hpending ▸ hr)) ?_
      rintro e ⟨rfl, hempty | htimer⟩
      · exact .resumed (hpending ▸ hempty)
      · exact .timer htimer
    next count timersNow hcontrol =>
      refine (handleTimers_spec hw count timersNow).mono (fun r hr => .resumed (.inr hr)) ?_
      rintro e ⟨rfl, htimer⟩
      exact .timer htimer
    · exact .error .noStep

end IOService

end Brickred
