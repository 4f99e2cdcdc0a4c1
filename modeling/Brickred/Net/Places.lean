import Brickred.Lib.Exclusive
import Brickred.Net.Sockets

/-!
# Where descriptors are

Every descriptor that is open is in exactly one member of one device, but for those that a
device has lost sight of, and nothing else is in a member. What a call does to a member
keeps this.
-/

namespace Brickred

namespace Devices

open Function (update update_self update_of_ne)

/-- Where a descriptor is. -/
inductive Place
  | member (o : Nat) (m : Member)
  | dropped

def At (s : Devices) (fd : Nat) : Place → Prop
  | .member o m => ∃ d, s.device o = some d ∧ d.get m = some fd
  | .dropped => s.dropped fd = true

/-- A descriptor that is open is in one place. -/
structure Books (s : Devices) : Prop where
  exclusive : Exclusive.Holds (fun fd => s.files fd ≠ none) s.At
  badClose : s.badClose = false

variable {s s' : Devices} {o fd : Nat} {d d' : Device} {m : Member} {p : Place}

@[simp] theorem get_set_self (d : Device) (m : Member) (v : Option Nat) : (d.set m v).get m = v := by
  cases m <;> rfl

theorem get_set_of_ne (d : Device) {m m' : Member} (v : Option Nat) (h : m' ≠ m) :
    (d.set m v).get m' = d.get m' := by
  cases m <;> cases m' <;> first | rfl | exact absurd rfl h

theorem set_set (d : Device) (m : Member) (v v' : Option Nat) :
    (d.set m v).set m v' = d.set m v' := by
  cases m <;> rfl

/-! ## What is where after a change -/

theorem at_put_self : (s.put o d).At fd (.member o m) ↔ d.get m = some fd := by
  unfold At put
  simp only [update_self, Option.some.injEq, exists_eq_left']

theorem at_put_of_ne {o' : Nat} (h : o' ≠ o) :
    (s.put o d).At fd (.member o' m) ↔ s.At fd (.member o' m) := by
  unfold At put
  simp only [update_of_ne h]

theorem at_put_dropped : (s.put o d).At fd .dropped ↔ s.At fd .dropped := Iff.rfl

theorem at_drop (v : Option Nat) : (s.drop v).At fd (.member o m) ↔ s.At fd (.member o m) := by
  cases v <;> exact Iff.rfl

theorem at_drop_dropped {v : Option Nat} :
    (s.drop v).At fd .dropped ↔ s.At fd .dropped ∨ v = some fd := by
  cases v with
  | none => simp [drop]
  | some lost =>
    show update s.dropped lost true fd = true ↔ _
    by_cases h : fd = lost
    · subst h
      simp
    · rw [update_of_ne h]
      simp [At, Ne.symm h]

/-- The table of the kernel does not say where a descriptor is. -/
theorem at_setFile {fd' : Nat} (file : Option FileType) :
    (s.setFile fd' file).At fd p ↔ s.At fd p := by
  cases p <;> exact Iff.rfl

theorem at_member (hd : s.device o = some d) : s.At fd (.member o m) ↔ d.get m = some fd := by
  unfold At
  simp only [hd, Option.some.injEq, exists_eq_left']

@[simp] theorem put_device_self (s : Devices) (o : Nat) (d : Device) :
    (s.put o d).device o = some d := update_self ..

theorem put_device_of_ne {o' : Nat} (h : o' ≠ o) : (s.put o d).device o' = s.device o' :=
  update_of_ne h ..

@[simp] theorem put_files (s : Devices) (o : Nat) (d : Device) : (s.put o d).files = s.files := rfl

@[simp] theorem put_dropped (s : Devices) (o : Nat) (d : Device) :
    (s.put o d).dropped = s.dropped := rfl

@[simp] theorem put_badClose (s : Devices) (o : Nat) (d : Device) :
    (s.put o d).badClose = s.badClose := rfl

@[simp] theorem drop_files (s : Devices) (v : Option Nat) : (s.drop v).files = s.files := by
  cases v <;> rfl

@[simp] theorem drop_device (s : Devices) (v : Option Nat) : (s.drop v).device = s.device := by
  cases v <;> rfl

@[simp] theorem drop_badClose (s : Devices) (v : Option Nat) : (s.drop v).badClose = s.badClose := by
  cases v <;> rfl

@[simp] theorem drop_registered (s : Devices) (v : Option Nat) :
    (s.drop v).registered = s.registered := by
  cases v <;> rfl

@[simp] theorem closeFile_device (s : Devices) (fd : Nat) : (s.closeFile fd).device = s.device := by
  unfold closeFile
  split <;> rfl

@[simp] theorem closeFile_dropped (s : Devices) (fd : Nat) :
    (s.closeFile fd).dropped = s.dropped := by
  unfold closeFile
  split <;> rfl

@[simp] theorem closeFile_registered (s : Devices) (fd : Nat) :
    (s.closeFile fd).registered = s.registered := by
  unfold closeFile
  split <;> rfl

/-! ## Keeping the books -/

/-- Nothing is said of descriptors. -/
theorem Books.of_eq (h : Books s) (hfiles : s'.files = s.files) (hdropped : s'.dropped = s.dropped)
    (hbad : s'.badClose = s.badClose)
    (hdevice : ∀ o m fd, s'.At fd (.member o m) ↔ s.At fd (.member o m)) : Books s' where
  exclusive := by
    refine h.exclusive.congr (fun fd => by rw [hfiles]) fun fd p => ?_
    cases p with
    | member o m => exact hdevice o m fd
    | dropped =>
      show s'.dropped fd = true ↔ s.dropped fd = true
      rw [hdropped]
  badClose := hbad.trans h.badClose

/-- A device is changed, but not in what it holds. -/
theorem Books.put (h : Books s) (hd : s.device o = some d) (hget : ∀ m, d'.get m = d.get m) :
    Books (s.put o d') := by
  refine h.of_eq rfl rfl rfl fun o' m fd => ?_
  by_cases ho : o' = o
  · subst ho
    rw [at_put_self, at_member hd, hget]
  · exact at_put_of_ne ho

/-- An `epoll` set does not say where a descriptor is. -/
theorem Books.setRegistered (h : Books s) (registered : Nat → Nat → Option Nat) :
    Books { s with registered } := h.of_eq rfl rfl rfl fun _ _ _ => Iff.rfl

theorem Books.epollDel (h : Books s) (service : Nat) (v : Option Nat) :
    Books (s.epollDel service v) := by
  cases v with
  | none => exact h
  | some fd => exact h.setRegistered _

/-- A device is made, which holds nothing. -/
theorem Books.construct (h : Books s) (hnone : s.device o = none) (kind : DeviceKind) :
    Books (s.put o (.construct kind)) := by
  refine h.of_eq rfl rfl rfl fun o' m fd => ?_
  by_cases ho : o' = o
  · subst ho
    rw [at_put_self]
    constructor
    · intro hget
      cases m <;> cases hget
    · rintro ⟨d, hd, -⟩
      rw [hnone] at hd
      cases hd
  · exact at_put_of_ne ho

/-- What a member holds is closed. -/
theorem Books.closeMember (h : Books s) (o : Nat) (m : Member) : Books (s.closeMember o m) := by
  unfold Devices.closeMember
  cases hd : s.device o with
  | none => exact h
  | some d =>
    dsimp only
    cases hfd : d.get m with
    | none => exact h
    | some fd =>
      have hat : s.At fd (.member o m) := (at_member hd).mpr hfd
      have hopen : s.files fd ≠ none := (h.exclusive.placed fd).mpr ⟨_, hat⟩
      unfold closeFile
      dsimp only
      rw [if_neg hopen]
      have hother : ∀ {b q}, s.At b q → q ≠ .member o m → b ≠ fd := by
        rintro b q hb hne rfl
        exact hne (h.exclusive.unique hb hat)
      refine ⟨h.exclusive.delete (a := fd) (fun b => ?_) fun b q => ?_, h.badClose⟩
      · show update s.files fd none b ≠ none ↔ _
        by_cases hb : b = fd
        · subst hb
          simp
        · simp [hb]
      · cases q with
        | dropped =>
          rw [at_put_dropped, at_setFile]
          exact ⟨fun hb => ⟨hb, hother hb (by simp)⟩, And.left⟩
        | member o' m' =>
          by_cases ho : o' = o
          · subst ho
            rw [at_put_self, at_member hd]
            by_cases hm : m' = m
            · subst hm
              rw [get_set_self, hfd]
              simp [eq_comm]
            · rw [get_set_of_ne d none hm]
              exact ⟨fun hb => ⟨hb, hother ((at_member hd).mpr hb) (by simp [hm])⟩, And.left⟩
          · rw [at_put_of_ne ho, at_setFile]
            exact ⟨fun hb => ⟨hb, hother hb (by simp [ho])⟩, And.left⟩

/-- What a member holds is lost. -/
theorem Books.dropMember (h : Books s) (hd : s.device o = some d) (m : Member) :
    Books ((s.drop (d.get m)).put o (d.set m none)) := by
  cases hfd : d.get m with
  | none =>
    refine h.put hd fun m' => ?_
    by_cases hm : m' = m
    · subst hm
      rw [get_set_self, hfd]
    · exact get_set_of_ne d none hm
  | some fd =>
    have hat : s.At fd (.member o m) := (at_member hd).mpr hfd
    refine ⟨h.exclusive.move (q := .dropped) hat (by simp) (fun _ => Iff.rfl) (fun b => ?_)
      (fun b => ?_) fun b r hne hdrop => ?_, h.badClose⟩
    · rw [at_put_self, get_set_self, at_member hd, hfd]
      simp [eq_comm]
    · rw [at_put_dropped, at_drop_dropped]
      simp [eq_comm]
    · cases r with
      | dropped => exact absurd rfl hdrop
      | member o' m' =>
        by_cases ho : o' = o
        · subst ho
          have hm : m' ≠ m := fun heq => hne (by rw [heq])
          rw [at_put_self, get_set_of_ne d none hm, at_member hd]
        · rw [at_put_of_ne ho, at_drop]

/-- A new descriptor is stored in a member that is free. -/
theorem Books.store (h : Books s) (hd : s.device o = some d) (hfree : s.files fd = none)
    (hempty : d.get m = none) (type : FileType) :
    Books ((s.put o (d.set m (some fd))).setFile fd (some type)) := by
  refine ⟨h.exclusive.create (a := fd) (q := .member o m) (by simp [hfree]) (fun b => ?_)
    (fun b => ?_) fun b r hne => ?_, h.badClose⟩
  · show update s.files fd (some type) b ≠ none ↔ _
    by_cases hb : b = fd
    · subst hb
      simp
    · simp [hb]
  · rw [at_setFile, at_put_self, get_set_self, at_member hd, hempty]
    simp [eq_comm]
  · rw [at_setFile]
    cases r with
    | dropped => exact at_put_dropped
    | member o' m' =>
      by_cases ho : o' = o
      · subst ho
        have hm : m' ≠ m := fun heq => hne (by rw [heq])
        rw [at_put_self, get_set_of_ne d _ hm, at_member hd]
      · exact at_put_of_ne ho

/-- A new descriptor is stored in a member; what was in it is lost. -/
theorem Books.setDescriptor (h : Books s) (hd : s.device o = some d) (hfree : s.files fd = none)
    (type : FileType) (m : Member) :
    Books ((s.setFile fd (some type)).setDescriptor o m fd) := by
  have hput : ((s.drop (d.get m)).put o (d.set m none)).device o = some (d.set m none) :=
    update_self ..
  have hfree' : ((s.drop (d.get m)).put o (d.set m none)).files fd = none := by
    rwa [put_files, drop_files]
  have hstored := (h.dropMember hd m).store hput hfree' (get_set_self d m none) type
  have heq : (s.setFile fd (some type)).setDescriptor o m fd =
      ((s.setFile fd (some type)).drop (d.get m)).put o (d.set m (some fd)) := by
    unfold Devices.setDescriptor
    rw [show (s.setFile fd (some type)).device o = some d from hd]
  rw [heq]
  refine hstored.of_eq ?_ ?_ ?_ fun o' m' fd' => ?_
  · cases d.get m <;> rfl
  · cases d.get m <;> rfl
  · cases d.get m <;> rfl
  · rw [at_setFile]
    by_cases ho : o' = o
    · subst ho
      rw [at_put_self, at_put_self, set_set]
    · rw [at_put_of_ne ho, at_put_of_ne ho, at_put_of_ne ho, at_drop, at_drop, at_setFile]

theorem setFile_setDescriptor (s : Devices) (o fd : Nat) (m : Member) (fd' : Nat)
    (file : Option FileType) : (s.setFile fd' file).setDescriptor o m fd =
      (s.setDescriptor o m fd).setFile fd' file := by
  unfold Devices.setDescriptor
  rw [show (s.setFile fd' file).device o = s.device o from rfl]
  cases s.device o with
  | none => rfl
  | some d =>
    dsimp only
    cases d.get m <;> rfl

@[simp] theorem setDescriptor_files (s : Devices) (o : Nat) (m : Member) (fd : Nat) :
    (s.setDescriptor o m fd).files = s.files := by
  unfold Devices.setDescriptor
  split
  · rfl
  · exact drop_files ..

/-- What a device still holds when it goes is lost. -/
theorem Books.erase (h : Books s) (o : Nat) : Books (s.erase o) := by
  unfold Devices.erase
  cases hd : s.device o with
  | none => exact h
  | some d =>
    have hfirst := h.dropMember hd .fd
    have hsecond := hfirst.dropMember (put_device_self ..) .fd1
    refine hsecond.of_eq (by simp) ?_ (by simp) fun o' m fd => ?_
    · rw [put_dropped]
      cases d.fd <;> cases hfd1 : d.fd1 <;> simp [drop, Device.get, Device.set, hfd1]
    by_cases ho : o' = o
    · subst ho
      rw [at_put_self]
      constructor
      · rintro ⟨d', hd', -⟩
        dsimp only at hd'
        rw [update_self] at hd'
        cases hd'
      · intro hget
        cases m <;> cases hget
    · rw [at_put_of_ne ho, at_drop, at_put_of_ne ho, at_drop]
      unfold At
      dsimp only
      rw [update_of_ne ho]

end Devices

end Brickred
