import Brickred.Net.Descriptors

/-!
# When a descriptor is lost

`accept` and `dupDescriptor` store a descriptor without asking what is in the member, and an
`IODevice` that is nothing else goes without closing what it has. No other call loses a
descriptor, whatever the kernel answers.

In a run where these are for a device that has no descriptor, what is open is in a device,
and the `epoll` sets have the devices that are attached, with their descriptors, and
nothing else.
-/

namespace Brickred

/-- A second descriptor comes with a first one. -/
def Device.Tidy (d : Device) : Prop := d.fd1 ≠ none → d.kind = .selfPipe ∧ d.fd ≠ none

theorem tidy_of_none {d : Device} (h : d.fd1 = none) : d.Tidy := fun hne => absurd h hne

theorem Device.Tidy.fd1_of_fd {d : Device} (h : d.Tidy) (hfd : d.fd = none) : d.fd1 = none := by
  by_contra hne
  exact (h hne).2 hfd

theorem Device.Tidy.fd1_of_kind {d : Device} (h : d.Tidy) (hkind : d.kind ≠ .selfPipe) :
    d.fd1 = none := by
  by_contra hne
  exact hkind (h hne).1

namespace Devices

open Function (update update_self update_of_ne)

variable {s s' s'' : Devices} {o fd : Nat} {d d' d'' : Device} {m : Member} {kind : DeviceKind}

/-- No device with this number has a descriptor. -/
def Vacant (s : Devices) (o : Nat) : Prop := (s.device o).bind Device.fd = none

/-- The call neither stores a descriptor over another nor leaves one behind. -/
def Careful (s : Devices) : DeviceOp → Prop
  | .destruct o => s.has o .ioDevice = true → s.Vacant o
  | .dupDescriptor o _ _ => s.Vacant o
  | .accept _ peer _ => s.Vacant peer
  | .acceptNonblock _ peer _ => s.Vacant peer
  | _ => True

def CarefulRun : Devices → List DeviceOp → Prop
  | _, [] => True
  | s, op :: ops => s.Careful op ∧ CarefulRun (s.step op).1 ops

theorem Vacant.fd_eq (h : s.Vacant o) (hd : s.device o = some d) : d.fd = none := by
  unfold Vacant at h
  rwa [hd, Option.bind_some] at h

/-! ## One device changes, and nothing is lost -/

structure Changes (s s' : Devices) (o : Nat) (d' : Device) : Prop where
  device : s'.device = update s.device o (some d')
  dropped : s'.dropped = s.dropped

theorem Changes.refl (hd : s.device o = some d) : Changes s s o d where
  device := by rw [← hd, Function.update_eq_self]
  dropped := rfl

theorem Changes.trans (h : Changes s s' o d') (h' : Changes s' s'' o d'') : Changes s s'' o d'' where
  device := by rw [h'.device, h.device, Function.update_idem]
  dropped := h'.dropped.trans h.dropped

theorem Changes.put (hdevice : s'.device = s.device) (hdropped : s'.dropped = s.dropped) :
    Changes s (s'.put o d) o d where
  device := by rw [← hdevice]; rfl
  dropped := hdropped

theorem Changes.self (h : Changes s s' o d') : s'.device o = some d' := by
  rw [h.device, update_self]

theorem detachIOService_changes (hd : s.device o = some d) :
    Changes s (s.detachIOService o) o { d with ioService := none } := by
  unfold detachIOService
  rw [hd]
  dsimp only
  cases hservice : d.ioService with
  | none =>
    have hsame : { d with ioService := none } = d := by rw [← hservice]
    rw [hsame]
    exact .refl hd
  | some service => exact .put (epollDel_device ..) (epollDel_dropped ..)

theorem closeMember_changes (hd : s.device o = some d) (m : Member) :
    Changes s (s.closeMember o m) o (d.set m none) := by
  unfold closeMember
  rw [hd]
  dsimp only
  cases hfd : d.get m with
  | none =>
    have hsame : d.set m none = d := by cases m <;> cases d <;> cases hfd <;> rfl
    rw [hsame]
    exact .refl hd
  | some fd => exact .put (closeFile_device ..) (closeFile_dropped ..)

/-- Nothing is left of what a device has had. -/
theorem close_changes (hd : s.device o = some d) (htidy : d.Tidy) (hkind : d.kind ≠ .ioDevice) :
    Changes s (s.close o) o (.construct d.kind) := by
  have hdetached := detachIOService_changes hd
  have hfirst := hdetached.trans (closeMember_changes hdetached.self .fd)
  -- a socket has one descriptor, so the first member is all there is to close
  have hsocket : d.kind ≠ .selfPipe →
      Changes s ((s.detachIOService o).closeMember o .fd) o (.construct d.kind) := by
    intro hne
    have hfd1 := htidy.fd1_of_kind hne
    have heq : Device.set { d with ioService := none } .fd none = .construct d.kind := by
      cases d
      cases hfd1
      rfl
    rwa [heq] at hfirst
  have hpipe : Changes s (((s.detachIOService o).closeMember o .fd).closeMember o .fd1) o
      (.construct d.kind) := hfirst.trans (closeMember_changes hfirst.self .fd1)
  unfold close
  rw [hd, Option.map_some]
  cases hk : d.kind with
  | ioDevice => exact absurd hk hkind
  | tcpSocket =>
    rw [hk] at hsocket
    exact hsocket (by simp)
  | udpSocket =>
    rw [hk] at hsocket
    exact hsocket (by simp)
  | selfPipe =>
    rw [hk] at hpipe
    exact hpipe

/-- An `IODevice` has no `close` of its own. -/
theorem close_ioDevice (hd : s.device o = some d) (hkind : d.kind = .ioDevice) : s.close o = s := by
  unfold close
  rw [hd, Option.map_some, hkind]

/-- A device that is opened has nothing before. -/
theorem closeOpen_changes (hd : s.device o = some d) (htidy : d.Tidy) (hkind : d.kind ≠ .ioDevice) :
    ∃ d', Changes s (s.closeOpen o) o d' ∧ d'.kind = d.kind ∧ d'.fd = none ∧ d'.fd1 = none := by
  unfold closeOpen
  rw [hd, Option.bind_some]
  cases hfd : d.fd with
  | none => exact ⟨d, .refl hd, rfl, hfd, htidy.fd1_of_fd hfd⟩
  | some fd => exact ⟨_, close_changes hd htidy hkind, rfl, rfl, rfl⟩

theorem setDescriptor_changes (hd : s.device o = some d) (hempty : d.get m = none)
    (type : FileType) (fd : Nat) :
    Changes s ((s.setFile fd (some type)).setDescriptor o m fd) o (d.set m (some fd)) := by
  unfold setDescriptor
  rw [show (s.setFile fd (some type)).device o = some d from hd]
  dsimp only
  rw [hempty]
  exact .put rfl rfl

/-! ## Calls -/

/-- A call for one device loses nothing. -/
def Lossless (s s' : Devices) (o : Nat) (kind : DeviceKind) : Prop :=
  ∃ d', Changes s s' o d' ∧ d'.kind = kind ∧ d'.Tidy

theorem Changes.lossless (h : Changes s s' o d') (hkind : d'.kind = kind) (htidy : d'.Tidy) :
    Lossless s s' o kind := ⟨d', h, hkind, htidy⟩

theorem close_lossless (hd : s.device o = some d) (htidy : d.Tidy) :
    Lossless s (s.close o) o d.kind := by
  by_cases hkind : d.kind = .ioDevice
  · rw [close_ioDevice hd hkind]
    exact (Changes.refl hd).lossless rfl htidy
  · exact (close_changes hd htidy hkind).lossless rfl (tidy_of_none rfl)

theorem Lossless.close (h : Lossless s s' o kind) : Lossless s (s'.close o) o kind := by
  obtain ⟨d, hchanges, hkind, htidy⟩ := h
  obtain ⟨d', hclosed, hkind', htidy'⟩ := close_lossless hchanges.self htidy
  exact (hchanges.trans hclosed).lossless (hkind'.trans hkind) htidy'

theorem Lossless.andThen {r : Devices × Bool} (h : Lossless s r.1 o kind) (ok : Bool) :
    Lossless s (andThen r o ok).1 o kind := by
  obtain ⟨s', done⟩ := r
  cases done with
  | false => exact h
  | true =>
    unfold Devices.andThen
    dsimp only
    split
    · exact h
    · exact h.close

/-- A new descriptor is stored in a device that has none. -/
theorem install_lossless (hd : s.device o = some d) (htidy : d.Tidy) (hfd : d.fd = none)
    (type : FileType) (fd : Nat) :
    Lossless s ((s.setFile fd (some type)).setDescriptor o .fd fd) o d.kind :=
  (setDescriptor_changes (m := .fd) hd hfd type fd).lossless rfl (tidy_of_none (htidy.fd1_of_fd hfd))

theorem detachIOService_lossless (hd : s.device o = some d) (htidy : d.Tidy) :
    Lossless s (s.detachIOService o) o d.kind := (detachIOService_changes hd).lossless rfl htidy

theorem attachIOService_lossless (hd : s.device o = some d) (htidy : d.Tidy) (service : Nat)
    (ok : Bool) : Lossless s (s.attachIOService o service ok).1 o d.kind := by
  have hdetached := detachIOService_changes hd
  unfold attachIOService
  dsimp only
  rw [hdetached.self]
  dsimp only
  rcases epollAdd_cases (s.detachIOService o) service o d.fd ok with hno | ⟨fd, -, -, hadd⟩
  · rw [hno]
    exact hdetached.lossless rfl htidy
  · rw [hadd]
    have hentered : Changes (s.detachIOService o) (((s.detachIOService o).enter service fd o).put o
        { d with ioService := some service }) o { d with ioService := some service } := .put rfl rfl
    exact (hdetached.trans hentered).lossless rfl htidy

theorem openSocket_lossless (type : FileType) (hd : s.device o = some d) (htidy : d.Tidy)
    (hkind : d.kind ≠ .ioDevice) (protocol : Protocol) (a : OpenAnswers) :
    Lossless s (openSocket type s o protocol a).1 o d.kind := by
  obtain ⟨d', hclosed, hkind', hfd, hfd1⟩ := closeOpen_changes hd htidy hkind
  have hfailed : Lossless s (s.closeOpen o) o d.kind := hclosed.lossless hkind' (tidy_of_none hfd1)
  unfold openSocket
  dsimp only
  cases protocol with
  | unknown => exact hfailed
  | ipV4 | ipV6 =>
    dsimp only
    rcases newFile_cases (s.closeOpen o) type a.fd with hnone | ⟨fd, -, hsome⟩
    · rw [hnone]
      exact hfailed
    · rw [hsome]
      have hopened : Lossless s _ o d.kind :=
        (hclosed.trans (setDescriptor_changes (m := .fd) hclosed.self hfd type fd)).lossless hkind'
          (tidy_of_none hfd1)
      dsimp only
      split
      · exact hopened
      · exact hopened.close

theorem tcpCall_lossless (hd : s.device o = some d) (htidy : d.Tidy) (hkind : d.kind ≠ .ioDevice)
    (call : OpenCall) (protocol : Protocol) (a : OpenAnswers) :
    Lossless s (TcpSocket.call call s o protocol a).1 o d.kind := by
  have hopen : Lossless s (TcpSocket.open s o protocol a).1 o d.kind :=
    openSocket_lossless .stream hd htidy hkind protocol a
  cases call with
  | plain => exact hopen
  | active => exact hopen.andThen _
  | activeNonblock => exact (hopen.andThen _).andThen _
  | passive => exact hopen.andThen _
  | passiveNonblock => exact (hopen.andThen _).andThen _

theorem udpCall_lossless (hd : s.device o = some d) (htidy : d.Tidy) (hkind : d.kind ≠ .ioDevice)
    (call : OpenCall) (protocol : Protocol) (a : OpenAnswers) :
    Lossless s (UdpSocket.call call s o protocol a).1 o d.kind := by
  have hopen : Lossless s (UdpSocket.open s o protocol a).1 o d.kind :=
    openSocket_lossless .datagram hd htidy hkind protocol a
  cases call with
  | plain => exact hopen
  | active => exact hopen.andThen _
  | activeNonblock => exact (hopen.andThen _).andThen _
  | passive => exact hopen.andThen _
  | passiveNonblock => exact (hopen.andThen _).andThen _

theorem dupDescriptor_lossless (hd : s.device o = some d) (htidy : d.Tidy) (hfd : d.fd = none)
    (fd : Nat) (answer : Option Nat) : Lossless s (s.dupDescriptor o fd answer).1 o d.kind := by
  have hfailed : Lossless s s o d.kind := (Changes.refl hd).lossless rfl htidy
  unfold dupDescriptor
  split
  · exact hfailed
  next type _ =>
    rcases newFile_cases s type answer with hnone | ⟨fd', -, hsome⟩
    · rw [hnone]
      exact hfailed
    · rw [hsome]
      exact install_lossless hd htidy hfd type fd'

theorem accept_lossless {peer : Nat} (hd : s.device peer = some d) (htidy : d.Tidy)
    (hfd : d.fd = none) (o : Nat) (a : OpenAnswers) :
    Lossless s (TcpSocket.accept s o peer a).1 peer d.kind := by
  have hfailed : Lossless s s peer d.kind := (Changes.refl hd).lossless rfl htidy
  unfold TcpSocket.accept
  split
  · exact hfailed
  · rcases newFile_cases s .stream a.fd with hnone | ⟨fd, -, hsome⟩
    · rw [hnone]
      exact hfailed
    · rw [hsome]
      exact Lossless.andThen (install_lossless hd htidy hfd .stream fd) a.setCloseOnExec

theorem pipeOpen_lossless (hd : s.device o = some d) (htidy : d.Tidy) (hkind : d.kind = .selfPipe)
    (answer : Option (Nat × Nat)) : Lossless s (SelfPipe.open s o answer).1 o d.kind := by
  obtain ⟨d', hclosed, hkind', hfd, hfd1⟩ := closeOpen_changes hd htidy (by simp [hkind])
  have hfailed : Lossless s (s.closeOpen o) o d.kind := hclosed.lossless hkind' (tidy_of_none hfd1)
  unfold SelfPipe.open
  dsimp only
  cases answer with
  | none => exact hfailed
  | some ends =>
    obtain ⟨readEnd, writeEnd⟩ := ends
    dsimp only
    split
    · -- both members are free, as a second descriptor comes with a first one
      have hfirst := setDescriptor_changes (m := .fd) hclosed.self hfd .pipe readEnd
      have hsecond := setDescriptor_changes (m := .fd1) hfirst.self hfd1 .pipe writeEnd
      have hopened := (hclosed.trans hfirst).trans hsecond
      rw [← setFile_setDescriptor] at hopened
      exact hopened.lossless hkind' fun _ => ⟨hkind'.trans hkind, by simp [Device.set]⟩
    · exact hfailed

/-! ## Runs -/

/-- Nothing has been lost. -/
structure Saved (s : Devices) : Prop where
  tidy : ∀ {o d}, s.device o = some d → d.Tidy
  dropped : ∀ fd, s.dropped fd = false

theorem Saved.lossless (h : Saved s) (hlossless : Lossless s s' o kind) : Saved s' := by
  obtain ⟨d', hchanges, -, htidy⟩ := hlossless
  constructor
  · intro o' d₁ hd₁
    rw [hchanges.device] at hd₁
    by_cases ho : o' = o
    · subst ho
      rw [update_self] at hd₁
      cases hd₁
      exact htidy
    · rw [update_of_ne ho] at hd₁
      exact h.tidy hd₁
  · rw [hchanges.dropped]
    exact h.dropped

/-- A call for a device that there may be. -/
theorem Saved.call (h : Saved s) (hnone : s.device o = none → s' = s)
    (hsome : ∀ {d}, s.device o = some d → d.Tidy → Lossless s s' o d.kind) : Saved s' := by
  cases hd : s.device o with
  | none =>
    rw [hnone hd]
    exact h
  | some d => exact h.lossless (hsome hd (h.tidy hd))

theorem Saved.construct (h : Saved s) (o : Nat) (kind : DeviceKind) :
    Saved (s.put o (.construct kind)) :=
  h.lossless ((Changes.put rfl rfl).lossless rfl (tidy_of_none rfl))

theorem Saved.erase (h : Saved s) (hfd : ∀ {d}, s.device o = some d → d.fd = none) :
    Saved (s.erase o) := by
  unfold Devices.erase
  cases hd : s.device o with
  | none => exact h
  | some d =>
    dsimp only
    -- there is nothing in it to lose
    rw [hfd hd, (h.tidy hd).fd1_of_fd (hfd hd)]
    refine ⟨fun {o' d₁} hd₁ => ?_, h.dropped⟩
    change update s.device o none o' = some d₁ at hd₁
    by_cases ho : o' = o
    · subst ho
      rw [update_self] at hd₁
      cases hd₁
    · rw [update_of_ne ho] at hd₁
      exact h.tidy hd₁

/-- A class that has a `close` closes what the device has; an `IODevice` has nothing. -/
theorem Saved.destruct (h : Saved s) (hvacant : s.has o .ioDevice = true → s.Vacant o) :
    Saved (s.destruct o) := by
  cases hd : s.device o with
  | none =>
    have hsame : s.destruct o = s := by
      simp [Devices.destruct, Devices.close, detachIOService, Devices.erase, hd]
    rwa [hsame]
  | some d =>
    obtain ⟨d', hclosed, hfd, htidy⟩ : ∃ d', Changes s (s.close o) o d' ∧ d'.fd = none ∧ d'.Tidy := by
      by_cases hkind : d.kind = .ioDevice
      · rw [close_ioDevice hd hkind]
        exact ⟨d, .refl hd, (hvacant (has_iff.mpr ⟨d, hd, hkind⟩)).fd_eq hd, h.tidy hd⟩
      · exact ⟨_, close_changes hd (h.tidy hd) hkind, rfl, tidy_of_none rfl⟩
    -- the destructor of `IODevice` comes second
    have hdetached := hclosed.trans (detachIOService_changes hclosed.self)
    refine (h.lossless (hdetached.lossless rfl htidy)).erase fun {d₁} hd₁ => ?_
    rw [hdetached.self] at hd₁
    cases hd₁
    exact hfd

/-- A call that is only made for some devices. -/
theorem Saved.guarded (h : Saved s) {c : Prop} [Decidable c] {r : Devices × Bool}
    (hr : c → Saved r.1) : Saved (if c then r else (s, false)).1 := by
  by_cases hc : c
  · rw [if_pos hc]
    exact hr hc
  · rw [if_neg hc]
    exact h

theorem Saved.step (h : Saved s) (op : DeviceOp) (hcareful : s.Careful op) : Saved (s.step op).1 := by
  cases op with
  | construct o kind => exact h.guarded fun _ => h.construct o kind
  | destruct o => exact h.destruct hcareful
  | attachIOService o service ok =>
    refine h.call (o := o) (fun hd => ?_) fun hd htidy =>
      attachIOService_lossless hd htidy service ok
    simp [Devices.step, Devices.attachIOService, Devices.detachIOService, hd]
  | detachIOService o =>
    refine h.call (o := o) (fun hd => ?_) fun hd htidy => detachIOService_lossless hd htidy
    simp [Devices.step, Devices.detachIOService, hd]
  | dupDescriptor o fd answer =>
    refine h.guarded fun hsome => ?_
    obtain ⟨d, hd⟩ := Option.isSome_iff_exists.mp hsome
    exact h.lossless (dupDescriptor_lossless hd (h.tidy hd) (Vacant.fd_eq hcareful hd) fd answer)
  | close o =>
    refine h.call (o := o) (fun hd => ?_) fun hd htidy => close_lossless hd htidy
    simp [Devices.step, Devices.close, hd]
  | tcpOpen call o protocol a =>
    refine h.guarded fun hhas => ?_
    obtain ⟨d, hd, hkind⟩ := has_iff.mp hhas
    exact h.lossless (tcpCall_lossless hd (h.tidy hd) (by simp [hkind]) call protocol a)
  | udpOpen call o protocol a =>
    refine h.guarded fun hhas => ?_
    obtain ⟨d, hd, hkind⟩ := has_iff.mp hhas
    exact h.lossless (udpCall_lossless hd (h.tidy hd) (by simp [hkind]) call protocol a)
  | accept o peer a =>
    refine h.guarded fun hhas => ?_
    obtain ⟨d, hd, -⟩ := has_iff.mp (Bool.and_eq_true_iff.mp hhas).2
    exact h.lossless (accept_lossless hd (h.tidy hd) (Vacant.fd_eq hcareful hd) o a)
  | acceptNonblock o peer a =>
    refine h.guarded fun hhas => ?_
    obtain ⟨d, hd, -⟩ := has_iff.mp (Bool.and_eq_true_iff.mp hhas).2
    exact h.lossless
      ((accept_lossless hd (h.tidy hd) (Vacant.fd_eq hcareful hd) o a).andThen _)
  | pipeOpen o answer =>
    refine h.guarded fun hhas => ?_
    obtain ⟨d, hd, hkind⟩ := has_iff.mp hhas
    exact h.lossless (pipeOpen_lossless hd (h.tidy hd) hkind answer)

theorem saved_init : Saved init where
  tidy hd := by cases hd
  dropped _ := rfl

theorem Saved.run (h : Saved s) (ops : List DeviceOp) (hcareful : CarefulRun s ops) :
    Saved (s.run ops) := by
  induction ops generalizing s with
  | nil => exact h
  | cons op ops ih => exact ih (h.step op hcareful.1) hcareful.2

/-- In a run of careful calls, what is open is in one member of one device, and the `epoll` sets
have the devices that are attached with their descriptors, and nothing else. -/
theorem nothing_lost (ops : List DeviceOp) (hcareful : CarefulRun init ops) :
    (∀ fd, (init.run ops).files fd ≠ none →
      ∃! p : Nat × Member, ∃ d, (init.run ops).device p.1 = some d ∧ d.get p.2 = some fd) ∧
      ∀ service fd o, (init.run ops).registered service fd = some o ↔
        (init.run ops).Attached o service fd := by
  obtain ⟨hbooks, hentries⟩ := consistent_init.run ops
  have hdropped := (saved_init.run ops hcareful).dropped
  constructor
  · intro fd hfd
    obtain ⟨p, hp, hunique⟩ := hbooks.exclusive.existsUnique hfd
    cases p with
    | member o m =>
      refine ⟨(o, m), hp, fun q hq => ?_⟩
      have hplace := hunique (.member q.1 q.2) hq
      cases hplace
      rfl
    | dropped =>
      have hdrop : (init.run ops).dropped fd = true := hp
      rw [hdropped fd] at hdrop
      cases hdrop
  · intro service fd o
    constructor
    · intro hentry
      refine (hentries.attached hentry).resolve_right ?_
      simp [hdropped fd]
    · rintro ⟨d, hd, hservice, hfd⟩
      obtain ⟨fd', hentry, hfd'⟩ := hentries.listed hd hservice
      -- the entry is not for another descriptor, as none is lost
      rcases hfd' with hfd' | hdrop
      · rw [hfd] at hfd'
        cases hfd'
        exact hentry
      · rw [hdropped fd'] at hdrop
        cases hdrop

/-- A listener that accepts, and closes what it has accepted. -/
def acceptOps : List DeviceOp :=
  let answers fd : OpenAnswers := ⟨some fd, true, true, true, true, true, true, true⟩
  [.construct 0 .tcpSocket, .tcpOpen .passiveNonblock 0 .ipV4 (answers 3),
    .attachIOService 0 0 true, .construct 1 .tcpSocket, .acceptNonblock 0 1 (answers 4),
    .attachIOService 1 0 true, .destruct 1]

theorem nothing_lost_accept :
    (init.run acceptOps).Attached 0 0 3 ∧ ¬ (init.run acceptOps).Attached 1 0 4 := by
  have hcareful : CarefulRun init acceptOps :=
    ⟨trivial, trivial, trivial, trivial, rfl, trivial, fun h => absurd h (by decide), trivial⟩
  have hentries := (nothing_lost acceptOps hcareful).2
  exact ⟨(hentries 0 3 0).mp rfl, fun h => absurd ((hentries 0 4 1).mpr h) (by decide)⟩

end Devices

end Brickred
