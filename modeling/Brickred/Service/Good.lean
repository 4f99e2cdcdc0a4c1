import Brickred.Service.Moves

/-!
# The invariant of an entry

Which callbacks a socket has, how its timer, its status and its write buffer go
together. Every move keeps it.
-/

namespace Brickred

variable {C : Type} {cfg : TcpConfig} {z : TcpHazard} {n m : Nat} {a : TcpActor} {id : SocketId}
  {outs : List (TcpOutput C)} {x : Option (TcpEntry C)} {T T' : TcpTable C} {e e' : TcpEntry C}
  {q : Nat} {c : TcpConnection C}

/-- A socket without a connection waits for connections, or for the timer after
which it will. -/
structure TcpEntry.ListenerGood (e : TcpEntry C) : Prop where
  writeCb : e.socket.writeCb = none
  readCb : (e.socket.readCb = some .onListenSocketRead ∧ e.timer = none) ∨
    (e.socket.readCb = none ∧
      ∃ t v, e.timer = some (t, v) ∧ ∀ u ∈ v, u.timerCb = .onListenSocketResumeRead)

/-- A socket with a connection. -/
structure TcpEntry.ConnectionGood (e : TcpEntry C) (c : TcpConnection C) : Prop where
  readCb : e.socket.readCb ≠ some .onListenSocketRead
  timer : ∀ t u, e.timer = some (t, some u) →
    u.timerCb = .onAsyncConnectTimeout ∨ u.timerCb = .onSendMessageError
  /-- There is write interest exactly as long as there are bytes to write. -/
  writeCb : e.socket.writeCb = some .onSocketWrite ↔ c.writeBuffer.readable ≠ []
  connecting : e.socket.writeCb = some .onAsyncConnectSocketWrite →
    e.socket.readCb = none ∧ c.status ≠ .connected
  /-- Only a connection that is not connected has a timer. -/
  connected : c.status = .connected → e.timer = none ∧ e.socket.readCb = some .onSocketRead
  callback : c.sendCompleteCb ≠ none → c.writeBuffer.readable ≠ []

/-- The invariant of an entry. -/
structure TcpEntry.Good (e : TcpEntry C) : Prop where
  listener : e.connection = none → e.ListenerGood
  connection : ∀ {q c}, e.connection = some (q, c) → e.ConnectionGood c

/-- The invariant of a table. -/
def TcpTable.Good (T : TcpTable C) : Prop := ∀ id, ∀ e ∈ T id, e.Good

theorem TcpEntry.Good.of_connection (hc : e.connection = some (q, c)) (h : e.ConnectionGood c) :
    e.Good where
  listener hnone := by
    rw [hc] at hnone
    cases hnone
  connection {q' c'} hc' := by
    rw [hc] at hc'
    cases hc'
    exact h

theorem TcpEntry.Good.of_listener (hc : e.connection = none) (h : e.ListenerGood) : e.Good where
  listener _ := h
  connection {q' c'} hc' := by
    rw [hc] at hc'
    cases hc'

/-- A socket that waits for connections has no connection and no timer. -/
theorem TcpEntry.Good.of_listening (hg : e.Good) (hread : e.socket.readCb = some .onListenSocketRead) :
    e.connection = none ∧ e.timer = none := by
  have hnone : e.connection = none := by
    by_contra hne
    obtain ⟨⟨q, c⟩, hc⟩ := Option.ne_none_iff_exists'.mp hne
    exact (hg.connection hc).readCb hread
  refine ⟨hnone, ?_⟩
  rcases (hg.listener hnone).readCb with ⟨-, htimer⟩ | ⟨hread', -⟩
  · exact htimer
  · rw [hread] at hread'
    cases hread'

theorem TcpHazard.TimerSet.timerCb {timerCb : TimerCallback} {t : Int}
    {v : Option (Timer TimerCallback)} (h : z.TimerSet timerCb (t, v)) :
    ∀ u ∈ v, u.timerCb = timerCb := by
  intro u hu
  rw [Option.mem_def] at hu
  subst hu
  rcases h with ⟨t', u', heq, -, hcb⟩ | ⟨heq, -⟩
  · have hu := Option.some.inj (congrArg Prod.snd heq)
    rw [show u = u' from hu]
    exact hcb
  · exact absurd (congrArg Prod.snd heq) (Option.some_ne_none u)

/-- What is left of an entry is the entry. -/
theorem TcpEntry.afterComplete_eq_some {cb : Option (SendCompleteCallback C)}
    (h : some e' = e.afterComplete cb) : e' = e := by
  unfold TcpEntry.afterComplete at h
  split at h
  · cases h
  · exact Option.some.inj h

theorem TcpEntry.afterComplete_good {cb : Option (SendCompleteCallback C)} (hg : e.Good)
    (h : some e' = e.afterComplete cb) : e'.Good :=
  TcpEntry.afterComplete_eq_some h ▸ hg

/-- Every move keeps the invariant of the entry. -/
theorem EntryMove.good (hx : ∀ e ∈ x, e.Good) (h : EntryMove cfg z n m id a outs x (some e')) :
    e'.Good := by
  cases h with
  | listening hid hopens hp => exact .of_listener rfl ⟨rfl, .inl ⟨rfl, rfl⟩⟩
  | opened hid hopens hp hq hstatus hfresh houts =>
    refine .of_connection rfl ⟨by simp, by simp, ?_, by simp, fun _ => ⟨rfl, rfl⟩, ?_⟩
    · simp [hfresh.write]
    · simp [hfresh.callback]
  | connecting hid hopens hp hq hstatus hfresh htimer =>
    refine .of_connection rfl ⟨by simp, fun t u hu => ?_, ?_, fun _ => ⟨rfl, ?_⟩, ?_, ?_⟩
    · exact .inl ((htimer _ hu).timerCb u rfl)
    · simp [hfresh.write]
    · simp [hstatus]
    · simp [hstatus]
    · simp [hfresh.callback]
  | @context _ e ctx =>
    have h := hx e rfl
    exact ⟨fun hnone => ⟨(h.listener hnone).writeCb, (h.listener hnone).readCb⟩,
      fun hc => ⟨(h.connection hc).readCb, (h.connection hc).timer, (h.connection hc).writeCb,
        (h.connection hc).connecting, (h.connection hc).connected, (h.connection hc).callback⟩⟩
  | @consumed _ e q c hc size =>
    have h := (hx e rfl).connection hc
    exact .of_connection rfl ⟨h.readCb, h.timer, h.writeCb, h.connecting, h.connected, h.callback⟩
  | refused hc hstatus => exact hx _ rfl
  | @failed _ e q c errno timer outs hquiet hc hstatus htimer houts =>
    have h := (hx e rfl).connection hc
    refine .of_connection rfl ⟨h.readCb, fun t u hu => .inr ?_, h.writeCb,
      fun hw => ⟨(h.connecting hw).1, by simp [TcpConnection.setError]⟩,
      by simp [TcpConnection.setError], h.callback⟩
    cases hu
    exact htimer.timerCb u rfl
  | sent hquiet hc hstatus hempty hafter => exact TcpEntry.afterComplete_good (hx _ rfl) hafter
  | @started _ e q c message k writeBuffer cb hquiet hc hstatus hempty hk hread hmax =>
    have h := (hx e rfl).connection hc
    have hne : writeBuffer.readable ≠ [] := by
      rw [hread, ne_eq, List.drop_eq_nil_iff]
      exact Nat.not_le.mpr hk
    exact .of_connection rfl ⟨h.readCb, h.timer, iff_of_true rfl hne, by simp, h.connected,
      fun _ => hne⟩
  | @queued _ e q c message writeBuffer cb hquiet hc hstatus hne hread hmax hover =>
    have h := (hx e rfl).connection hc
    have hne' : writeBuffer.readable ≠ [] := by
      rw [hread]
      simp [hne]
    exact .of_connection rfl ⟨h.readCb, h.timer, iff_of_true (h.writeCb.mpr hne) hne', h.connecting,
      h.connected, fun _ => hne'⟩
  | thrown hquiet hc hthrows houts => exact hx _ rfl
  | @paused e timer hc hread htimer =>
    have h := (hx e rfl).listener hc
    exact .of_listener hc ⟨h.writeCb, .inr ⟨rfl, timer.1, timer.2, rfl, htimer.timerCb⟩⟩
  | @resumed e hc =>
    have h := (hx e rfl).listener hc
    exact .of_listener hc ⟨h.writeCb, .inl ⟨rfl, rfl⟩⟩
  | @untimed e q c hc =>
    have h := (hx e rfl).connection hc
    exact .of_connection hc ⟨h.readCb, by simp, h.writeCb, h.connecting,
      fun hs => ⟨rfl, (h.connected hs).2⟩, h.callback⟩
  | @errored e q c errorCode outs hc houts =>
    have h := (hx e rfl).connection hc
    exact .of_connection rfl ⟨h.readCb, h.timer, h.writeCb,
      fun hw => ⟨(h.connecting hw).1, by simp [TcpConnection.setError]⟩,
      by simp [TcpConnection.setError], h.callback⟩
  | reported hc => exact hx _ rfl
  | @established e q c outs hc hwrite htimer hlate houts =>
    have h := (hx e rfl).connection hc
    refine .of_connection rfl ⟨by simp, h.timer, ?_, by simp, fun _ => ⟨htimer, rfl⟩, h.callback⟩
    have hempty := h.writeCb
    rw [hwrite] at hempty
    have hnot : ¬c.writeBuffer.readable ≠ [] := fun hne => by simpa using hempty.mpr hne
    exact iff_of_false (by simp) hnot
  | @received e q c readBuffer hc hmax =>
    have h := (hx e rfl).connection hc
    exact .of_connection rfl ⟨h.readCb, h.timer, h.writeCb, h.connecting, h.connected, h.callback⟩
  | announced hc => exact hx _ rfl
  | @peerClosed e q c outs hc houts =>
    have h := (hx e rfl).connection hc
    exact .of_connection rfl ⟨h.readCb, h.timer, h.writeCb,
      fun hw => ⟨(h.connecting hw).1, by simp⟩, by simp, h.callback⟩
  | @wrote e q c k writeBuffer hquiet hc hwrite hread hne =>
    have h := (hx e rfl).connection hc
    exact .of_connection rfl ⟨h.readCb, h.timer, iff_of_true hwrite hne, h.connecting, h.connected,
      fun _ => hne⟩
  | @drained e q c writeBuffer _ hquiet hc hwrite hread hafter =>
    have h := (hx e rfl).connection hc
    refine TcpEntry.afterComplete_good (.of_connection rfl ?_) hafter
    exact ⟨h.readCb, h.timer, iff_of_false (by simp) (by simp [hread]), by simp,
      h.connected, by simp⟩

theorem Moves.good (h : Moves cfg z n m a T outs T') (hT : T.Good) : T'.Good :=
  h.forall_entry (P := fun _ e => e.Good) (fun hx hmove => hmove.good hx) hT

/-! ## Old and new addresses -/

/-- An entry has a new socket, or one it had already. -/
def TcpEntry.Kept (n m : Nat) (a : TcpActor) (x : Option (TcpEntry C)) (e' : TcpEntry C) : Prop :=
  (n ≤ e'.address ∧ ∀ q c, e'.connection = some (q, c) → m ≤ q) ∨
  ∃ e, x = some e ∧ e.address = e'.address ∧ (a = .user → e.socket.readCb = e'.socket.readCb) ∧
    e.connection.map Prod.fst = e'.connection.map Prod.fst

theorem EntryMove.kept (h : EntryMove cfg z n m id a outs x (some e')) :
    TcpEntry.Kept n m a x e' := by
  cases h with
  | listening hid hopens hp => exact .inl ⟨hp, by simp⟩
  | opened hid hopens hp hq | connecting hid hopens hp hq =>
    refine .inl ⟨hp, fun q c hc => ?_⟩
    cases hc
    exact hq
  | consumed hc | failed _ hc | started _ hc | queued _ hc =>
    exact .inr ⟨_, rfl, rfl, fun _ => rfl, by simp [hc]⟩
  | context | refused | thrown =>
    exact .inr ⟨_, rfl, rfl, fun _ => rfl, rfl⟩
  | sent _ _ _ _ hafter =>
    obtain rfl := TcpEntry.afterComplete_eq_some hafter
    exact .inr ⟨_, rfl, rfl, fun _ => rfl, rfl⟩
  | drained _ hc _ _ hafter =>
    obtain rfl := TcpEntry.afterComplete_eq_some hafter
    exact .inr ⟨_, rfl, rfl, nofun, by simp [hc]⟩
  | paused hc | resumed hc | untimed hc | reported hc | announced hc =>
    exact .inr ⟨_, rfl, rfl, nofun, by simp [hc]⟩
  | errored hc | established hc | received hc | peerClosed hc | wrote _ hc =>
    exact .inr ⟨_, rfl, rfl, nofun, by simp [hc]⟩

theorem Moves.kept (h : Moves cfg z n m a T outs T') {id : SocketId} {e' : TcpEntry C}
    (he : T' id = some e') : TcpEntry.Kept n m a (T id) e' := by
  refine h.forall_entry (P := fun id e' => TcpEntry.Kept n m a (T id) e') ?_ ?_ id e' he
  · intro id outs x e' hx hmove
    rcases hmove.kept with hnew | ⟨e, rfl, haddr, hread, hconn⟩
    · exact .inl hnew
    · rcases hx e rfl with ⟨hn, hm⟩ | ⟨e₀, h₀, haddr₀, hread₀, hconn₀⟩
      · refine .inl ⟨haddr ▸ hn, fun q c hc => ?_⟩
        rw [hc] at hconn
        obtain ⟨⟨q', c'⟩, hc', hqq⟩ := Option.map_eq_some_iff.mp hconn
        obtain rfl : q' = q := hqq
        exact hm q' c' hc'
      · exact .inr ⟨e₀, h₀, haddr₀.trans haddr, fun ha => (hread₀ ha).trans (hread ha),
          hconn₀.trans hconn⟩
  · intro id e he
    exact .inr ⟨e, he, rfl, fun _ => rfl, rfl⟩

end Brickred
