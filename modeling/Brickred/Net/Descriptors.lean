import Brickred.Net.EpollSets

/-!
# Who has a descriptor

In every run of calls, whatever the kernel answers, a descriptor that is open is in one
member of one device, or the devices have lost sight of it; so `close` is never called with
a number that is not a descriptor, or that another device uses by now. No entry of an
`epoll` set is left of a descriptor that is closed.
-/

namespace Brickred

namespace Devices

open Function (update update_self update_of_ne)

variable {s s' : Devices} {o fd : Nat} {d d' : Device} {m : Member}

/-- The invariant of a run. -/
structure Consistent (s : Devices) : Prop where
  books : Books s
  entries : Entries s

/-! ## Classes -/

/-- No device comes or goes, or changes its class. -/
def SameKinds (s s' : Devices) : Prop :=
  ∀ o, (s'.device o).map Device.kind = (s.device o).map Device.kind

theorem SameKinds.trans {s'' : Devices} (h : SameKinds s s') (h' : SameKinds s' s'') :
    SameKinds s s'' := fun o => (h' o).trans (h o)

theorem SameKinds.put (hd : s.device o = some d) (hkind : d'.kind = d.kind) :
    SameKinds s (s.put o d') := by
  intro o'
  by_cases ho : o' = o
  · subst ho
    rw [put_device_self, hd]
    exact congrArg some hkind
  · rw [put_device_of_ne ho]

theorem SameKinds.device (h : SameKinds s s') (hd : s.device o = some d) :
    ∃ d', s'.device o = some d' ∧ d'.kind = d.kind := by
  have hkind := h o
  rw [hd, Option.map_some] at hkind
  exact Option.map_eq_some_iff.mp hkind

@[simp] theorem kind_set (d : Device) (m : Member) (v : Option Nat) : (d.set m v).kind = d.kind := by
  cases m <;> rfl

/-- A call keeps the invariant and the devices. -/
structure Safe (s s' : Devices) : Prop where
  keeps : Consistent s → Consistent s'
  kinds : SameKinds s s'

theorem Safe.refl (s : Devices) : Safe s s := ⟨id, fun _ => rfl⟩

theorem Safe.trans {s'' : Devices} (h : Safe s s') (h' : Safe s' s'') : Safe s s'' :=
  ⟨fun hs => h'.keeps (h.keeps hs), h.kinds.trans h'.kinds⟩

/-! ## Calls of one device -/

theorem detachIOService_safe (s : Devices) (o : Nat) : Safe s (s.detachIOService o) := by
  unfold detachIOService
  cases hd : s.device o with
  | none => exact .refl s
  | some d =>
    dsimp only
    cases hservice : d.ioService with
    | none => exact .refl s
    | some service =>
      have hd' : (s.epollDel service d.fd).device o = some d := by rwa [epollDel_device]
      have hkinds : SameKinds s (s.epollDel service d.fd) := fun o => by rw [epollDel_device]
      refine ⟨fun h => ⟨?_, h.entries.detach h.books hd hservice⟩, hkinds.trans (.put hd' rfl)⟩
      refine (h.books.epollDel service d.fd).put hd' fun m => ?_
      cases m <;> rfl

theorem detachIOService_free (hd : (s.detachIOService o).device o = some d) : d.ioService = none := by
  unfold detachIOService at hd
  split at hd
  next hnone =>
    rw [hnone] at hd
    cases hd
  next d₁ hd₁ =>
    split at hd
    next hfree =>
      rw [hd₁] at hd
      cases hd
      exact hfree
    · rw [put_device_self] at hd
      cases hd
      rfl

theorem closeMember_safe (hfree : ∀ {d}, s.device o = some d → d.ioService = none) (m : Member) :
    Safe s (s.closeMember o m) := by
  refine ⟨fun h => ⟨h.books.closeMember o m, h.entries.closeMember hfree m⟩, ?_⟩
  unfold closeMember
  cases hd : s.device o with
  | none => exact fun _ => rfl
  | some d =>
    dsimp only
    cases d.get m with
    | none => exact fun _ => rfl
    | some fd =>
      have hclosed : SameKinds s (s.closeFile fd) := fun o => by rw [closeFile_device]
      exact hclosed.trans (.put (by rwa [closeFile_device]) (kind_set ..))

theorem closeMember_free (hfree : ∀ {d}, s.device o = some d → d.ioService = none)
    (hd : (s.closeMember o m).device o = some d) : d.ioService = none := by
  unfold closeMember at hd
  split at hd
  next hnone =>
    rw [hnone] at hd
    cases hd
  next d₁ hd₁ =>
    split at hd
    · exact hfree hd
    · have hnone := hfree hd₁
      rw [put_device_self] at hd
      cases hd
      cases m <;> exact hnone

theorem close_safe (s : Devices) (o : Nat) : Safe s (s.close o) := by
  -- what is closed is no longer in a set
  have hfirst := (detachIOService_safe s o).trans (closeMember_safe detachIOService_free .fd)
  unfold close
  split
  · exact hfirst.trans (closeMember_safe (closeMember_free detachIOService_free) .fd1)
  · exact hfirst
  · exact hfirst
  · exact .refl s
  · exact .refl s

theorem closeOpen_safe (s : Devices) (o : Nat) : Safe s (s.closeOpen o) := by
  unfold closeOpen
  split
  · exact close_safe s o
  · exact .refl s

theorem andThen_safe {r : Devices × Bool} (h : Safe s r.1) (o : Nat) (ok : Bool) :
    Safe s (andThen r o ok).1 := by
  obtain ⟨s', done⟩ := r
  cases done with
  | false => exact h
  | true =>
    unfold andThen
    dsimp only
    split
    · exact h
    · exact h.trans (close_safe s' o)

/-- A new descriptor, if there is one, is stored in a member of a device. -/
theorem install_safe (hd : s.device o = some d) (hfree : s.files fd = none) (type : FileType)
    (m : Member) : Safe s ((s.setFile fd (some type)).setDescriptor o m fd) := by
  refine ⟨fun h => ⟨h.books.setDescriptor hd hfree type m,
    (h.entries.setFile fd (some type)).setDescriptor o m fd⟩, ?_⟩
  rw [setFile_setDescriptor]
  unfold setDescriptor
  rw [hd]
  have hdropped : SameKinds s (s.drop (d.get m)) := fun o => by rw [drop_device]
  exact hdropped.trans (.put (by rwa [drop_device]) (kind_set ..))

theorem newFile_cases (s : Devices) (type : FileType) (answer : Option Nat) :
    s.newFile type answer = (s, none) ∨ ∃ fd, s.files fd = none ∧
      s.newFile type answer = (s.setFile fd (some type), some fd) := by
  cases answer with
  | none => exact .inl rfl
  | some fd =>
    unfold newFile
    dsimp only
    split
    next hfree => exact .inr ⟨fd, hfree, rfl⟩
    · exact .inl rfl

theorem openSocket_safe (type : FileType) (hd : s.device o = some d) (protocol : Protocol)
    (a : OpenAnswers) : Safe s (openSocket type s o protocol a).1 := by
  have hclosed := closeOpen_safe s o
  obtain ⟨d', hd', -⟩ := hclosed.kinds.device hd
  unfold openSocket
  dsimp only
  cases protocol with
  | unknown => exact hclosed
  | ipV4 | ipV6 =>
    dsimp only
    rcases newFile_cases (s.closeOpen o) type a.fd with hnone | ⟨fd, hfree, hsome⟩
    · rw [hnone]
      exact hclosed
    · rw [hsome]
      have hinstalled := hclosed.trans (install_safe hd' hfree type .fd)
      dsimp only
      split
      · exact hinstalled
      · exact hinstalled.trans (close_safe _ o)

theorem dupDescriptor_safe (hd : s.device o = some d) (fd : Nat) (answer : Option Nat) :
    Safe s (s.dupDescriptor o fd answer).1 := by
  unfold dupDescriptor
  split
  · exact .refl s
  next type _ =>
    rcases newFile_cases s type answer with hnone | ⟨fd', hfree, hsome⟩
    · rw [hnone]
      exact .refl s
    · rw [hsome]
      exact install_safe hd hfree type .fd

theorem accept_safe {peer : Nat} (hd : s.device peer = some d) (o : Nat) (a : OpenAnswers) :
    Safe s (TcpSocket.accept s o peer a).1 := by
  unfold TcpSocket.accept
  split
  · exact .refl s
  · rcases newFile_cases s .stream a.fd with hnone | ⟨fd, hfree, hsome⟩
    · rw [hnone]
      exact .refl s
    · rw [hsome]
      exact andThen_safe (install_safe hd hfree .stream .fd) peer a.setCloseOnExec

theorem pipeOpen_safe (hd : s.device o = some d) (answer : Option (Nat × Nat)) :
    Safe s (SelfPipe.open s o answer).1 := by
  have hclosed := closeOpen_safe s o
  obtain ⟨d', hd', -⟩ := hclosed.kinds.device hd
  unfold SelfPipe.open
  dsimp only
  cases answer with
  | none => exact hclosed
  | some ends =>
    obtain ⟨readEnd, writeEnd⟩ := ends
    dsimp only
    split
    next hends =>
      obtain ⟨hne, hread, hwrite⟩ := hends
      have hfirst := hclosed.trans (install_safe hd' hread .pipe .fd)
      obtain ⟨d₁, hd₁, -⟩ := hfirst.kinds.device hd
      have hfree : (((s.closeOpen o).setFile readEnd (some .pipe)).setDescriptor o .fd
          readEnd).files writeEnd = none := by
        rw [setFile_setDescriptor]
        show update ((s.closeOpen o).setDescriptor o .fd readEnd).files readEnd _ writeEnd = none
        rw [update_of_ne (Ne.symm hne), setDescriptor_files]
        exact hwrite
      have hsecond := hfirst.trans (install_safe hd₁ hfree .pipe .fd1)
      rw [← setFile_setDescriptor] at hsecond
      exact hsecond
    · exact hclosed

theorem attachIOService_safe (s : Devices) (o service : Nat) (ok : Bool) :
    Safe s (s.attachIOService o service ok).1 := by
  have hdetached := detachIOService_safe s o
  unfold attachIOService
  dsimp only
  cases hd : (s.detachIOService o).device o with
  | none => exact hdetached
  | some d =>
    dsimp only
    rcases epollAdd_cases (s.detachIOService o) service o d.fd ok with hno | ⟨fd, hfd, hnone, hadd⟩
    · rw [hno]
      exact hdetached
    · rw [hadd]
      have hfree := detachIOService_free hd
      refine hdetached.trans ⟨fun h => ⟨?_, h.entries.attach hd hfree hfd hnone⟩, .put hd rfl⟩
      refine (h.books.setRegistered _).put hd fun m => ?_
      cases m <;> rfl

theorem Consistent.destruct (h : Consistent s) (o : Nat) : Consistent (s.destruct o) := by
  have hclosed := ((close_safe s o).trans (detachIOService_safe _ o)).keeps h
  exact ⟨hclosed.books.erase o, hclosed.entries.erase o⟩

theorem tcpCall_safe (hd : s.device o = some d) (call : OpenCall) (protocol : Protocol)
    (a : OpenAnswers) : Safe s (TcpSocket.call call s o protocol a).1 := by
  have hopen : Safe s (TcpSocket.open s o protocol a).1 := openSocket_safe .stream hd protocol a
  cases call with
  | plain => exact hopen
  | active => exact andThen_safe hopen o _
  | activeNonblock => exact andThen_safe (andThen_safe hopen o _) o _
  | passive => exact andThen_safe hopen o _
  | passiveNonblock => exact andThen_safe (andThen_safe hopen o _) o _

theorem udpCall_safe (hd : s.device o = some d) (call : OpenCall) (protocol : Protocol)
    (a : OpenAnswers) : Safe s (UdpSocket.call call s o protocol a).1 := by
  have hopen : Safe s (UdpSocket.open s o protocol a).1 := openSocket_safe .datagram hd protocol a
  cases call with
  | plain => exact hopen
  | active => exact andThen_safe hopen o _
  | activeNonblock => exact andThen_safe (andThen_safe hopen o _) o _
  | passive => exact andThen_safe hopen o _
  | passiveNonblock => exact andThen_safe (andThen_safe hopen o _) o _

/-! ## Runs -/

theorem has_iff {kind : DeviceKind} :
    s.has o kind = true ↔ ∃ d, s.device o = some d ∧ d.kind = kind := by
  rw [has, decide_eq_true_eq, Option.map_eq_some_iff]

/-- A call that is only made for some devices. -/
theorem safe_if {c : Prop} [Decidable c] {r : Devices × Bool} (h : c → Safe s r.1) :
    Safe s (if c then r else (s, false)).1 := by
  by_cases hc : c
  · rw [if_pos hc]
    exact h hc
  · rw [if_neg hc]
    exact .refl s

theorem Consistent.step (h : Consistent s) (op : DeviceOp) : Consistent (s.step op).1 := by
  cases op with
  | construct o kind =>
    show Consistent (if s.device o = none then (s.put o (.construct kind), true) else (s, false)).1
    split
    next hnone => exact ⟨h.books.construct hnone kind, h.entries.construct hnone kind⟩
    · exact h
  | destruct o => exact h.destruct o
  | attachIOService o service ok => exact (attachIOService_safe s o service ok).keeps h
  | detachIOService o => exact (detachIOService_safe s o).keeps h
  | dupDescriptor o fd answer =>
    refine (safe_if fun hsome => ?_).keeps h
    obtain ⟨d, hd⟩ := Option.isSome_iff_exists.mp hsome
    exact dupDescriptor_safe hd fd answer
  | close o => exact (close_safe s o).keeps h
  | tcpOpen call o protocol a =>
    refine (safe_if fun hhas => ?_).keeps h
    obtain ⟨d, hd, -⟩ := has_iff.mp hhas
    exact tcpCall_safe hd call protocol a
  | udpOpen call o protocol a =>
    refine (safe_if fun hhas => ?_).keeps h
    obtain ⟨d, hd, -⟩ := has_iff.mp hhas
    exact udpCall_safe hd call protocol a
  | accept o peer a =>
    refine (safe_if fun hhas => ?_).keeps h
    obtain ⟨d, hd, -⟩ := has_iff.mp (Bool.and_eq_true_iff.mp hhas).2
    exact accept_safe hd o a
  | acceptNonblock o peer a =>
    refine (safe_if fun hhas => ?_).keeps h
    obtain ⟨d, hd, -⟩ := has_iff.mp (Bool.and_eq_true_iff.mp hhas).2
    exact andThen_safe (accept_safe hd o a) peer _
  | pipeOpen o answer =>
    refine (safe_if fun hhas => ?_).keeps h
    obtain ⟨d, hd, -⟩ := has_iff.mp hhas
    exact pipeOpen_safe hd answer

theorem consistent_init : Consistent init := by
  refine ⟨⟨⟨fun fd => ⟨fun h => absurd rfl h, ?_⟩, ?_⟩, rfl⟩, ?_, ?_⟩
  · rintro ⟨p, hp⟩
    cases p with
    | member o m =>
      obtain ⟨d, hd, -⟩ := hp
      cases hd
    | dropped => cases hp
  · intro fd p q hp
    cases p with
    | member o m =>
      obtain ⟨d, hd, -⟩ := hp
      cases hd
    | dropped => cases hp
  · intro service fd o hentry
    cases hentry
  · intro o d service hd
    cases hd

/-- What calls leave, one after the other. -/
def run (s : Devices) (ops : List DeviceOp) : Devices := ops.foldl (fun s op => (s.step op).1) s

theorem Consistent.run (h : Consistent s) (ops : List DeviceOp) : Consistent (s.run ops) := by
  induction ops generalizing s with
  | nil => exact h
  | cons op ops ih => exact ih (h.step op)

/-- In every run the descriptors that are open are in one member of one device each, or the
devices have lost sight of them; no member has anything else, and nothing else is closed. -/
theorem descriptors_held (ops : List DeviceOp) :
    (init.run ops).badClose = false ∧
      (∀ fd, (init.run ops).files fd ≠ none → ∃! p, (init.run ops).At fd p) ∧
        ∀ fd p, (init.run ops).At fd p → (init.run ops).files fd ≠ none := by
  have hbooks := (consistent_init.run ops).books
  exact ⟨hbooks.badClose, fun fd hfd => hbooks.exclusive.existsUnique hfd,
    fun fd p hp => (hbooks.exclusive.placed fd).mpr ⟨p, hp⟩⟩

/-- An entry of an `epoll` set has a descriptor that is open, and a device that is attached with
it or has lost sight of it; and a device that is attached has an entry. -/
theorem entries_open (ops : List DeviceOp) :
    (∀ service fd o, (init.run ops).registered service fd = some o →
      (init.run ops).files fd ≠ none ∧
        ((init.run ops).Attached o service fd ∨ (init.run ops).dropped fd = true)) ∧
      ∀ o d service, (init.run ops).device o = some d → d.ioService = some service →
        ∃ fd, (init.run ops).registered service fd = some o ∧
          (d.fd = some fd ∨ (init.run ops).dropped fd = true) := by
  obtain ⟨hbooks, hentries⟩ := consistent_init.run ops
  refine ⟨fun service fd o hentry => ⟨?_, hentries.attached hentry⟩,
    fun o d service hd hservice => hentries.listed hd hservice⟩
  rcases hentries.attached hentry with ⟨d, hd, -, hfd⟩ | hdrop
  · exact (hbooks.exclusive.placed fd).mpr ⟨.member o .fd, d, hd, hfd⟩
  · exact (hbooks.exclusive.placed fd).mpr ⟨.dropped, hdrop⟩

end Devices

end Brickred
