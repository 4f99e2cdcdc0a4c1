import Brickred.Net.Places

/-!
# What the `epoll` sets have

A device that is attached to a service is in the `epoll` set of the service, with its
descriptor or with one that it has lost sight of. Nothing else is in a set.
-/

namespace Brickred

namespace Devices

open Function (update update_self update_of_ne)

variable {s s' : Devices} {o service fd : Nat} {d : Device} {m : Member}

def Attached (s : Devices) (o service fd : Nat) : Prop :=
  ∃ d, s.device o = some d ∧ d.ioService = some service ∧ d.fd = some fd

structure Entries (s : Devices) : Prop where
  attached : ∀ {service fd o}, s.registered service fd = some o →
    s.Attached o service fd ∨ s.dropped fd = true
  listed : ∀ {o d service}, s.device o = some d → d.ioService = some service →
    ∃ fd, s.registered service fd = some o ∧ (d.fd = some fd ∨ s.dropped fd = true)

theorem attached_congr (h : s'.device o = s.device o) :
    s'.Attached o service fd ↔ s.Attached o service fd := by
  unfold Attached
  rw [h]

theorem attached_iff (hd : s.device o = some d) :
    s.Attached o service fd ↔ d.ioService = some service ∧ d.fd = some fd := by
  unfold Attached
  simp only [hd, Option.some.injEq, exists_eq_left']

/-- A descriptor that is attached is not lost, and not attached elsewhere. -/
theorem Books.attached_unique (h : Books s) (hfd : s.At fd (.member o .fd)) {o' service' : Nat}
    (h' : s.Attached o' service' fd ∨ s.dropped fd = true) : o' = o := by
  rcases h' with ⟨d', hd', -, hfd'⟩ | hdrop
  · have hplace : Place.member o' .fd = .member o .fd := h.exclusive.unique ⟨d', hd', hfd'⟩ hfd
    exact (Place.member.inj hplace).1
  · have hplace : Place.dropped = .member o .fd := h.exclusive.unique (show s.At fd .dropped from hdrop) hfd
    cases hplace

/-! ## One device changes -/

/-- The sets do not change. What the device has had is lost, or the device still has it. -/
theorem Entries.change (h : Entries s) (hregistered : s'.registered = s.registered)
    (hother : ∀ o', o' ≠ o → s'.device o' = s.device o')
    (hdropped : ∀ fd, s.dropped fd = true → s'.dropped fd = true)
    (hattached : ∀ {service fd}, s.Attached o service fd →
      s'.Attached o service fd ∨ s'.dropped fd = true)
    (hservice : ∀ {d'}, s'.device o = some d' → d'.ioService ≠ none →
      ∃ d, s.device o = some d ∧ d.ioService = d'.ioService) : Entries s' := by
  constructor
  · intro service fd o' hentry
    rw [hregistered] at hentry
    rcases h.attached hentry with hattach | hdrop
    · -- only what is attached to `o` can have changed
      by_cases ho : o' = o
      · subst ho
        exact hattached hattach
      · exact .inl ((attached_congr (hother o' ho)).mpr hattach)
    · exact .inr (hdropped fd hdrop)
  · intro o' d' service hd' hs'
    rw [hregistered]
    by_cases ho : o' = o
    · subst ho
      obtain ⟨d, hd, hsame⟩ := hservice hd' (by simp [hs'])
      have hs : d.ioService = some service := hsame.trans hs'
      obtain ⟨fd, hentry, hfd⟩ := h.listed hd hs
      -- the entry is still there, for what the device has or has lost
      refine ⟨fd, hentry, ?_⟩
      rcases hfd with hfd | hdrop
      · exact (hattached ⟨d, hd, hs, hfd⟩).imp_left fun hattach => ((attached_iff hd').mp hattach).2
      · exact .inr (hdropped fd hdrop)
    · rw [hother o' ho] at hd'
      obtain ⟨fd, hentry, hfd⟩ := h.listed hd' hs'
      exact ⟨fd, hentry, hfd.imp_right (hdropped fd)⟩

theorem Entries.construct (h : Entries s) (hnone : s.device o = none) (kind : DeviceKind) :
    Entries (s.put o (.construct kind)) := by
  refine h.change (o := o) rfl (fun o' ho => put_device_of_ne ho) (fun _ hdrop => hdrop) ?_ ?_
  · rintro service fd ⟨d, hd, -⟩
    rw [hnone] at hd
    cases hd
  · intro d' hd' hservice
    rw [put_device_self] at hd'
    cases hd'
    exact absurd rfl hservice

/-- What is not attached is closed. -/
theorem Entries.closeMember (h : Entries s)
    (hfree : ∀ {d}, s.device o = some d → d.ioService = none) (m : Member) :
    Entries (s.closeMember o m) := by
  unfold Devices.closeMember
  cases hd : s.device o with
  | none => exact h
  | some d =>
    dsimp only
    cases d.get m with
    | none => exact h
    | some fd =>
      refine h.change (o := o) (closeFile_registered s fd) (fun o' ho => ?_)
        (fun fd' hdrop => ?_) ?_ ?_
      · rw [put_device_of_ne ho, closeFile_device]
      · rwa [put_dropped, closeFile_dropped]
      · intro service fd' hattach
        obtain ⟨hservice, -⟩ := (attached_iff hd).mp hattach
        rw [hfree hd] at hservice
        cases hservice
      · intro d' hd' hservice
        rw [put_device_self] at hd'
        cases hd'
        refine absurd (hfree hd) ?_
        cases m <;> exact hservice

theorem Entries.setFile (h : Entries s) (fd : Nat) (file : Option FileType) :
    Entries (s.setFile fd file) := ⟨h.attached, h.listed⟩

theorem Entries.setDescriptor (h : Entries s) (o : Nat) (m : Member) (fd : Nat) :
    Entries (s.setDescriptor o m fd) := by
  unfold Devices.setDescriptor
  cases hd : s.device o with
  | none => exact h
  | some d =>
    refine h.change (o := o) (drop_registered s (d.get m)) (fun o' ho => ?_)
      (fun fd' hdrop => at_drop_dropped.mpr (.inl hdrop)) ?_ ?_
    · rw [put_device_of_ne ho, drop_device]
    · intro service fd' hattach
      obtain ⟨hservice, hfd⟩ := (attached_iff hd).mp hattach
      cases m with
      -- the entry stays, for a descriptor that is lost
      | fd => exact .inr (at_drop_dropped.mpr (.inr hfd))
      | fd1 => exact .inl ⟨_, put_device_self .., hservice, hfd⟩
    · intro d' hd' _
      rw [put_device_self] at hd'
      cases hd'
      refine ⟨d, hd, ?_⟩
      cases m <;> rfl

theorem Entries.erase (h : Entries s) (o : Nat) : Entries (s.erase o) := by
  unfold Devices.erase
  cases hd : s.device o with
  | none => exact h
  | some d =>
    have hdrop : ∀ {fd}, s.dropped fd = true ∨ d.fd = some fd →
        ((s.drop d.fd).drop d.fd1).dropped fd = true := by
      intro fd hfd
      exact at_drop_dropped.mpr (.inl (at_drop_dropped.mpr hfd))
    refine h.change (o := o) ?_ (fun o' ho => update_of_ne ho ..) (fun fd hfd => hdrop (.inl hfd))
      ?_ ?_
    · show ((s.drop d.fd).drop d.fd1).registered = s.registered
      rw [drop_registered, drop_registered]
    · intro service fd hattach
      exact .inr (hdrop (.inr ((attached_iff hd).mp hattach).2))
    · intro d' hd' _
      dsimp only at hd'
      rw [update_self] at hd'
      cases hd'

/-! ## The sets change -/

/-- An entry of a set, after a change of one entry. -/
theorem update_entry (f : Nat → Nat → Option Nat) (service fd : Nat) (v : Option Nat)
    (service' fd' : Nat) : update f service (update (f service) fd v) service' fd' =
      if service' = service ∧ fd' = fd then v else f service' fd' := by
  by_cases hs : service' = service
  · subst hs
    rw [update_self]
    by_cases hf : fd' = fd
    · subst hf
      simp
    · rw [update_of_ne hf, if_neg (by simp [hf])]
  · rw [update_of_ne hs, if_neg (by simp [hs])]

theorem epollDel_entry {v : Option Nat} {service' fd' o' : Nat} :
    (s.epollDel service v).registered service' fd' = some o' ↔
      s.registered service' fd' = some o' ∧ ¬ (service' = service ∧ v = some fd') := by
  cases v with
  | none => simp [epollDel]
  | some fd =>
    show update s.registered service (update (s.registered service) fd none) service' fd' = _ ↔ _
    rw [update_entry, Option.some.injEq, eq_comm (a := fd)]
    split
    next heq => simp [heq]
    next hne => simp [hne]

@[simp] theorem epollDel_device (s : Devices) (service : Nat) (v : Option Nat) :
    (s.epollDel service v).device = s.device := by
  cases v <;> rfl

@[simp] theorem epollDel_dropped (s : Devices) (service : Nat) (v : Option Nat) :
    (s.epollDel service v).dropped = s.dropped := by
  cases v <;> rfl

theorem Entries.detach (h : Entries s) (hbooks : Books s) (hd : s.device o = some d)
    (hservice : d.ioService = some service) :
    Entries ((s.epollDel service d.fd).put o { d with ioService := none }) := by
  constructor
  · intro service' fd' o' hentry
    obtain ⟨hentry, hne⟩ := epollDel_entry.mp hentry
    rw [put_dropped, epollDel_dropped]
    refine (h.attached hentry).imp_left fun hattach => ?_
    -- an entry of this device would be the one that is deleted
    have ho : o' ≠ o := by
      rintro rfl
      obtain ⟨hservice', hfd⟩ := (attached_iff hd).mp hattach
      rw [hservice] at hservice'
      exact hne ⟨(Option.some.inj hservice').symm, hfd⟩
    refine (attached_congr ?_).mpr hattach
    rw [put_device_of_ne ho, epollDel_device]
  · intro o' d' service' hd' hs'
    by_cases ho : o' = o
    · subst ho
      rw [put_device_self] at hd'
      cases hd'
      cases hs'
    · rw [put_device_of_ne ho, epollDel_device] at hd'
      obtain ⟨fd', hentry, hfd⟩ := h.listed hd' hs'
      rw [put_dropped, epollDel_dropped]
      -- the entry of another device is not deleted, for no other device has the descriptor
      refine ⟨fd', epollDel_entry.mpr ⟨hentry, fun heq => ho ?_⟩, hfd⟩
      exact hbooks.attached_unique ⟨d, hd, heq.2⟩ (h.attached hentry)

/-- The sets, with one more entry. -/
def enter (s : Devices) (service fd o : Nat) : Devices :=
  let set := update (s.registered service) fd (some o)
  { s with registered := update s.registered service set }

theorem epollAdd_cases (s : Devices) (service o : Nat) (v : Option Nat) (ok : Bool) :
    s.epollAdd service o v ok = (s, false) ∨ ∃ fd, v = some fd ∧ s.registered service fd = none ∧
      s.epollAdd service o v ok = (s.enter service fd o, true) := by
  unfold epollAdd
  cases v with
  | none => exact .inl rfl
  | some fd =>
    dsimp only
    split
    next hadd => exact .inr ⟨fd, rfl, hadd.2.2, rfl⟩
    · exact .inl rfl

theorem Entries.attach (h : Entries s) (hd : s.device o = some d) (hfree : d.ioService = none)
    (hfd : d.fd = some fd) (hnone : s.registered service fd = none) :
    Entries ((s.enter service fd o).put o { d with ioService := some service }) := by
  constructor
  · intro service' fd' o' hentry
    change update s.registered service _ service' fd' = some o' at hentry
    rw [update_entry] at hentry
    split at hentry
    next heq =>
      obtain ⟨rfl, rfl⟩ := heq
      cases hentry
      exact .inl ⟨_, put_device_self .., rfl, hfd⟩
    next =>
      refine (h.attached hentry).imp_left fun hattach => ?_
      have ho : o' ≠ o := by
        rintro rfl
        obtain ⟨hservice, -⟩ := (attached_iff hd).mp hattach
        rw [hfree] at hservice
        cases hservice
      exact (attached_congr (put_device_of_ne ho)).mpr hattach
  · intro o' d' service' hd' hs'
    show ∃ fd', update s.registered service _ service' fd' = some o' ∧ _
    by_cases ho : o' = o
    · subst ho
      rw [put_device_self] at hd'
      cases hd'
      cases hs'
      exact ⟨fd, by rw [update_self, update_self], .inl hfd⟩
    · rw [put_device_of_ne ho] at hd'
      obtain ⟨fd', hentry, hfd'⟩ := h.listed hd' hs'
      refine ⟨fd', ?_, hfd'⟩
      -- `EPOLL_CTL_ADD` fails where there is an entry, so it is not this one
      rw [update_entry, if_neg ?_]
      · exact hentry
      · rintro ⟨rfl, rfl⟩
        rw [hnone] at hentry
        cases hentry

end Devices

end Brickred
