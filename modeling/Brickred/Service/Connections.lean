import Brickred.Service.Receiving
import Brickred.Service.Steps

/-!
# The life of a connection

When there is write interest, how much the buffers hold, and whether a connection
that has failed can become connected again.
-/

namespace Brickred

variable {C : Type}

namespace TcpService

variable {s s' : TcpService C} {id : SocketId} {q : Nat} {c : TcpConnection C}
  {moves : List (TcpOp C × List (TcpOutput C))}

/-! ## Write interest -/

/-- A connected connection waits for write events as long as its write buffer holds
bytes, and no longer. -/
theorem Reachable.write_interest (h : Reachable s) (hq : s.connections id = some q) :
    ∃ c x, s.connectionObjects.cell q = some c ∧ s.socketObjects.cell c.socket = some x ∧
      x.id = id ∧ (c.status = .connected →
        (x.writeCb = some .onSocketWrite ↔ c.writeBuffer.readable ≠ []) ∧
        (c.writeBuffer.readable = [] → x.writeCb = none)) := by
  obtain ⟨e, c, he, hc, hcell, hsock⟩ := h.invariant.linked.entry_of_connections hq
  have hg := (h.invariant.good id e he).connection hc
  refine ⟨c, e.socket, hcell, hsock ▸ (entry_eq_some.mp he).2.1,
    h.invariant.linked.socket_id he, fun hstatus => ⟨hg.writeCb, fun hempty => ?_⟩⟩
  cases hw : e.socket.writeCb with
  | none => rfl
  | some cb =>
    cases cb with
    | onSocketWrite => exact absurd hempty (hg.writeCb.mp hw)
    | onAsyncConnectSocketWrite => exact absurd hstatus (hg.connecting hw).2

/-- Of three bytes the kernel has taken two: the third waits in the write buffer, and the
connection for a write event. -/
theorem write_interest_partial : ∃ s : TcpService Unit, ∃ c x,
    s.connectionObjects.cell 0 = some c ∧ s.socketObjects.cell c.socket = some x ∧
      x.id = 2 ^ 32 + 3 ∧ c.writeBuffer.readable = [3] ∧ x.writeCb = some .onSocketWrite := by
  obtain ⟨s, hs, hf⟩ := reachable_of_run (C := Unit)
    [.connect (some ⟨⟨3, by omega⟩, true⟩),
      .sendMessage (2 ^ 32 + 3) [1, 2, 3] none ⟨.accepted 2, .zero, true⟩]
    (fun s => s.connections (2 ^ 32 + 3) = some 0 ∧ ((s.connectionObjects.cell 0).all fun c =>
      c.status = .connected ∧ c.writeBuffer.readable = [3]) = true) (by decide +kernel)
  obtain ⟨hq, hall⟩ := of_decide_eq_true hf
  obtain ⟨c, x, hcell, hsock, hid, hinterest⟩ := hs.write_interest hq
  rw [hcell, Option.all_some] at hall
  obtain ⟨hstatus, hread⟩ := of_decide_eq_true hall
  refine ⟨s, c, x, hcell, hsock, hid, hread, (hinterest hstatus).1.mpr ?_⟩
  rw [hread]
  exact List.cons_ne_nil _ _

/-! ## Limits -/

/-- A step that leaves the limits of the buffers as they are. -/
def KeepsLimits (s : TcpService C) (op : TcpOp C) : Prop :=
  ∀ setting, op = .set setting →
    (s.config.set setting).connReadBufferMaxSize = s.config.connReadBufferMaxSize ∧
      (s.config.set setting).connWriteBufferMaxSize = s.config.connWriteBufferMaxSize

end TcpService

/-- The buffers of the connection of an entry are within limits. -/
def TcpEntry.Within (maxRead maxWrite : Nat) (e : TcpEntry C) : Prop :=
  ∀ q c, e.connection = some (q, c) → Brickred.Within maxRead c.readBuffer.readableBytes ∧
    Brickred.Within maxWrite c.writeBuffer.readableBytes

theorem TcpEntry.Within.of_connection {maxRead maxWrite q : Nat} {e : TcpEntry C}
    {c : TcpConnection C} (hc : e.connection = some (q, c))
    (hread : Brickred.Within maxRead c.readBuffer.readableBytes)
    (hwrite : Brickred.Within maxWrite c.writeBuffer.readableBytes) : e.Within maxRead maxWrite := by
  intro q' c' hc'
  rw [hc] at hc'
  cases hc'
  exact ⟨hread, hwrite⟩

theorem Within.of_le {maxSize size size' : Nat} (h : Within maxSize size) (hle : size' ≤ size) :
    Within maxSize size' :=
  fun hpos => hle.trans (h hpos)

theorem within_of_readable {maxSize : Nat} {b : DynamicBuffer} (h : b.readable = []) :
    Within maxSize b.readableBytes := by
  intro hpos
  rw [DynamicBuffer.readableBytes_eq_zero.mpr h]
  exact hpos.le

/-- Every move keeps the buffers within the limits. -/
theorem EntryMove.within {cfg : TcpConfig} {z : TcpHazard} {n m : Nat} {a : TcpActor}
    {id : SocketId} {outs : List (TcpOutput C)} {x : Option (TcpEntry C)} {e' : TcpEntry C}
    (hx : ∀ e ∈ x, e.Within cfg.connReadBufferMaxSize cfg.connWriteBufferMaxSize)
    (h : EntryMove cfg z n m id a outs x (some e')) :
    e'.Within cfg.connReadBufferMaxSize cfg.connWriteBufferMaxSize := by
  cases h with
  | listening => exact fun q c hc => by cases hc
  | opened hid hopens hp hq hstatus hfresh | connecting hid hopens hp hq hstatus hfresh =>
    exact .of_connection rfl (within_of_readable hfresh.read) (within_of_readable hfresh.write)
  | context | refused | thrown | paused | resumed | untimed | reported | announced =>
    intro q c hc
    exact hx _ rfl q c hc
  | sent _ _ _ _ hafter =>
    obtain rfl := TcpEntry.afterComplete_eq_some hafter
    exact hx _ rfl
  | consumed hc size =>
    obtain ⟨hread, hwrite⟩ := hx _ rfl _ _ hc
    refine .of_connection rfl (hread.of_le ?_) hwrite
    rw [← DynamicBuffer.length_readable, DynamicBuffer.readable_read, List.length_drop,
      DynamicBuffer.length_readable]
    exact Nat.sub_le ..
  | failed _ hc | errored hc | established hc | peerClosed hc =>
    obtain ⟨hread, hwrite⟩ := hx _ rfl _ _ hc
    exact .of_connection rfl hread hwrite
  | started _ hc _ _ _ _ hmax | queued _ hc _ _ _ hmax =>
    exact .of_connection rfl (hx _ rfl _ _ hc).1 hmax
  | received hc hmax =>
    obtain ⟨hread, hwrite⟩ := hx _ rfl _ _ hc
    exact .of_connection rfl (hmax hread) hwrite
  | wrote _ hc _ hdrop =>
    obtain ⟨hread, hwrite⟩ := hx _ rfl _ _ hc
    refine .of_connection rfl hread (hwrite.of_le ?_)
    rw [← DynamicBuffer.length_readable, hdrop, List.length_drop, DynamicBuffer.length_readable]
    exact Nat.sub_le ..
  | drained _ hc _ hempty hafter =>
    obtain rfl := TcpEntry.afterComplete_eq_some hafter
    exact .of_connection rfl (hx _ rfl _ _ hc).1 (within_of_readable hempty)

namespace TcpService

variable {s s' : TcpService C} {id : SocketId} {q : Nat} {c : TcpConnection C}
  {moves : List (TcpOp C × List (TcpOutput C))}

/-- All buffers are within the limits that are set. -/
def BuffersWithin (maxRead maxWrite : Nat) (s : TcpService C) : Prop :=
  s.config.connReadBufferMaxSize = maxRead ∧ s.config.connWriteBufferMaxSize = maxWrite ∧
    ∀ id, ∀ e ∈ s.entry id, e.Within maxRead maxWrite

theorem Stepped.buffersWithin {op : TcpOp C} {outs : List (TcpOutput C)} {maxRead maxWrite : Nat}
    (hkeep : s.KeepsLimits op) (hw : s.BuffersWithin maxRead maxWrite)
    (hrun : s.step op = .ok (s', outs)) (h : Stepped s op s' outs) :
    s'.BuffersWithin maxRead maxWrite := by
  obtain ⟨rfl, rfl, hall⟩ := hw
  have hlimits : s'.config.connReadBufferMaxSize = s.config.connReadBufferMaxSize ∧
      s'.config.connWriteBufferMaxSize = s.config.connWriteBufferMaxSize := by
    by_cases hset : ∃ setting, op = .set setting
    · obtain ⟨setting, rfl⟩ := hset
      cases hrun
      exact hkeep setting rfl
    · rw [h.config fun setting heq => hset ⟨setting, heq⟩]
      exact ⟨rfl, rfl⟩
  exact ⟨hlimits.1, hlimits.2, h.moves.forall_entry (fun hx hmove => hmove.within hx) hall⟩

/-- The buffers of a run whose limits are fixed before it. -/
theorem Reachable.buffers_within (h : Reachable s)
    (hnone : ∀ q, s.connectionObjects.cell q = none)
    (hread : 0 < s.config.connReadBufferMaxSize) (hwrite : 0 < s.config.connWriteBufferMaxSize)
    (hrun : Transition.Run (Transition.Guarded (fun s move => s.KeepsLimits move.1) Steps)
      s moves s') :
    ∀ q c, s'.connectionObjects.cell q = some c →
      c.readBuffer.readableBytes ≤ s.config.connReadBufferMaxSize ∧
      c.writeBuffer.readableBytes ≤ s.config.connWriteBufferMaxSize := by
  have hstart : s.BuffersWithin s.config.connReadBufferMaxSize s.config.connWriteBufferMaxSize := by
    refine ⟨rfl, rfl, fun id e he q c hc => ?_⟩
    have hcell := (h.invariant.linked.connection_of_entry he hc).2.1
    rw [hnone q] at hcell
    cases hcell
  have hend := hrun.invariant (I := fun s' => Invariant s' ∧
      s'.BuffersWithin s.config.connReadBufferMaxSize s.config.connWriteBufferMaxSize)
    (fun ⟨hi, hw⟩ ⟨hkeep, hstep⟩ =>
      ⟨(hi.step hstep).invariant, (hi.step hstep).buffersWithin hkeep hw hstep⟩)
    ⟨h.invariant, hstart⟩
  intro q c hcell
  obtain ⟨id, e, he, hc⟩ := hend.1.linked.entry_of_connection_cell hcell
  obtain ⟨hr, hw⟩ := hend.2.2.2 id e he q c hc
  exact ⟨hr hread, hw hwrite⟩

/-! ## Refused messages -/

/-- A message that is refused with an error leaves the buffers as they are. -/
theorem sendMessageOn_refused (hc : s.connectionObjects.cell q = some c) (message : List UInt8)
    (cb : Option (SendCompleteCallback C)) (answer : SendAnswer) :
    Outcome.Ensures (fun _ => True) (fun r => ∀ errno, .refused q (some errno) ∈ r.2 →
      r.1.connectionObjects.cell q = some (c.setError errno))
      (s.sendMessageOn q message cb answer) := by
  refine sendMessageOn_rule hc message cb answer (by simp) ?_ ?_ ?_
  · intro id errorCode
    unfold sendError addSocketTimer
    cases (s.setConnection q (·.setError errorCode)).timerHeap.addTimer answer.now 0
      .onSendMessageError 1 with
    | none => trivial
    | some r =>
      have hcell : (s.setConnection q (·.setError errorCode)).connectionObjects.cell q =
          some (c.setError errorCode) := ObjectHeap.cell_update_self hc
      refine ⟨fun errno hmem => ?_, fun bytes errno hmem => ?_⟩
      · obtain rfl : errno = errorCode := by simpa using hmem
        exact hcell
      · obtain rfl : errno = errorCode := by simpa using hmem
        exact hcell
  · intro data
    unfold queueMessage
    split
    · exact ⟨by simp, by simp⟩
    · cases c.writeBuffer.writeBytes data with
      | none => trivial
      | some writeBuffer => exact ⟨by simp, by simp⟩
  · intro id
    cases hr : s.sendComplete q id cb with
    | error f => trivial
    | ok r =>
      have houts : r.2 = (cb.map (.completed q id)).toList := by
        unfold TcpService.sendComplete at hr
        split at hr
        · cases hr
          rfl
        · cases hr
          rfl
        · cases hclose : s.closeSocket id with
          | error f =>
            rw [hclose] at hr
            cases hr
          | ok s' =>
            rw [hclose] at hr
            cases hr
            rfl
      intro bytes errno hmem
      rw [houts] at hmem
      simp at hmem

/-- A message that is refused because the write buffer is full leaves what it holds
and the connection with an error that will be reported. -/
theorem Reachable.refused_enobufs (h : Reachable s) {op : TcpOp C} {x : TcpSend C}
    (hx : x ∈ s.sends op) {cb : Option (SendCompleteCallback C)} {answer : SendAnswer}
    {s' : TcpService C} {outs : List (TcpOutput C)}
    (hrun : x.state.sendMessageOn x.connection x.message cb answer = .ok (s', outs))
    (hmem : .refused x.connection (some ENOBUFS) ∈ outs) :
    ∃ c c', x.state.connectionObjects.cell x.connection = some c ∧
      s'.connectionObjects.cell x.connection = some c' ∧
      c'.writeBuffer = c.writeBuffer ∧ c'.status = .pendingError := by
  obtain ⟨hl, -, id, hq⟩ := h.invariant.sends hx
  obtain ⟨e, c, -, -, hcell, -⟩ := hl.entry_of_connections hq
  exact ⟨c, _, hcell, (sendMessageOn_refused hcell x.message cb answer).of_ok hrun ENOBUFS hmem,
    rfl, rfl⟩

/-- With limits that are fixed before a run the buffers keep within them, and a
message that would not fit leaves the write buffer as it is. -/
theorem Reachable.limits (h : Reachable s) (hnone : ∀ q, s.connectionObjects.cell q = none)
    (hread : 0 < s.config.connReadBufferMaxSize) (hwrite : 0 < s.config.connWriteBufferMaxSize)
    (hrun : Transition.Run (Transition.Guarded (fun s move => s.KeepsLimits move.1) Steps)
      s moves s') :
    (∀ q c, s'.connectionObjects.cell q = some c →
      c.readBuffer.readableBytes ≤ s.config.connReadBufferMaxSize ∧
      c.writeBuffer.readableBytes ≤ s.config.connWriteBufferMaxSize) ∧
    ∀ op, ∀ x ∈ s'.sends op, ∀ cb answer t outs,
      x.state.sendMessageOn x.connection x.message cb answer = .ok (t, outs) →
      .refused x.connection (some ENOBUFS) ∈ outs →
      ∃ c c', x.state.connectionObjects.cell x.connection = some c ∧
        t.connectionObjects.cell x.connection = some c' ∧
        c'.writeBuffer = c.writeBuffer ∧ c'.status = .pendingError := by
  refine ⟨h.buffers_within hnone hread hwrite hrun, fun op x hx cb answer t outs hsend hmem => ?_⟩
  exact (h.run (hrun.mono And.right)).refused_enobufs hx hsend hmem

/-- A connection whose buffers hold at most 8 bytes: five have arrived, and of nine that are
to be sent the kernel takes none. -/
theorem limits_refused : ∃ (s' t : TcpService Unit) (c c' : TcpConnection Unit)
    (outs : List (TcpOutput Unit)), s'.connectionObjects.cell 0 = some c ∧
    c.readBuffer.readableBytes = 5 ∧ c.writeBuffer.readableBytes ≤ 8 ∧
    s'.sendMessageOn 0 (List.replicate 9 7) none ⟨.again, .zero, true⟩ = .ok (t, outs) ∧
    t.connectionObjects.cell 0 = some c' ∧ c'.writeBuffer = c.writeBuffer ∧
    c'.status = .pendingError := by
  obtain ⟨s, hs, hf⟩ := reachable_of_run (C := Unit)
    [.set (.recvBufferMaxSize 8), .set (.sendBufferMaxSize 8), .set (.recvMessageCallback true)]
    (fun s => s.connectionObjects.next = 0 ∧ s.config.connReadBufferMaxSize = 8 ∧
      s.config.connWriteBufferMaxSize = 8 ∧
      s.afterRun [.connect (some ⟨⟨3, by omega⟩, true⟩),
          .readable 0 [] [⟨5, .data [1, 2, 3, 4, 5]⟩]]
        fun s' => s'.connections (2 ^ 32 + 3) = some 0 ∧
          ((s'.connectionObjects.cell 0).any fun c => c.readBuffer.readableBytes = 5) = true ∧
          returns (s'.sendMessageOn 0 (List.replicate 9 7) none ⟨.again, .zero, true⟩)
            fun _ outs => .refused 0 (some ENOBUFS) ∈ outs) (by decide +kernel)
  obtain ⟨hnext, hread, hwrite, hafter⟩ := of_decide_eq_true hf
  obtain ⟨s', moves, hrun, hf⟩ := exists_of_afterRun hafter
  obtain ⟨hq, hfive, hsend⟩ := of_decide_eq_true hf
  obtain ⟨c, hcell, hfive⟩ := (Option.any_eq_true _ _).mp hfive
  obtain ⟨t, outs, hsend, hrefused⟩ := exists_of_returns hsend
  have hnone : ∀ q, s.connectionObjects.cell q = none := fun q => by
    by_contra hne
    obtain ⟨c, hc⟩ := Option.ne_none_iff_exists'.mp hne
    exact absurd (ObjectHeap.lt_next hc) (by rw [hnext]; exact Nat.not_lt_zero q)
  obtain ⟨hwithin, hrefusals⟩ := hs.limits hnone (by rw [hread]; decide) (by rw [hwrite]; decide)
    (run_guarded (g := KeepsLimits) hrun (by simp [KeepsLimits]))
  have hsends : ⟨s', 0, List.replicate 9 7, .again, true⟩ ∈ s'.sends (.sendMessage (2 ^ 32 + 3)
      (List.replicate 9 7) none ⟨.again, .zero, true⟩) := by
    unfold sends
    dsimp only
    rw [hq]
    exact List.mem_singleton_self _
  obtain ⟨c₁, c', hcell₁, hcell', hbuffer, hstatus⟩ := hrefusals _ _ hsends none
    ⟨.again, .zero, true⟩ t outs hsend (of_decide_eq_true hrefused)
  obtain rfl := Option.some.inj (hcell.symm.trans hcell₁)
  have hlimit := (hwithin 0 c hcell).2
  rw [hwrite] at hlimit
  exact ⟨s', t, c, c', outs, hcell, of_decide_eq_true hfive, hlimit, hsend, hcell', hbuffer, hstatus⟩

end TcpService

/-! ## Broken connections -/

/-- The connection has failed, or the peer has closed it. -/
def TcpConnection.Broken (c : TcpConnection C) : Prop :=
  c.status = .pendingError ∨ c.status = .peerClosed

/-- What is not seen of a connection that is broken. -/
def TcpOutput.Revives (q : Nat) (o : TcpOutput C) : Prop :=
  (∃ listenId id, o = .newConnection listenId q id) ∨ ∃ message cb, o = .accepted q message cb

theorem TcpConnection.Broken.not_connected {c : TcpConnection C} (h : c.Broken) :
    c.status ≠ .connected := by
  rcases h with h | h <;> rw [h] <;> simp

/-- If an entry has the connection `q`, it is broken. -/
def TcpEntry.BrokenAt (q : Nat) (e : TcpEntry C) : Prop :=
  ∀ c, e.connection = some (q, c) → c.Broken

theorem TcpEntry.BrokenAt.of_connection {q q' : Nat} {e : TcpEntry C} {c : TcpConnection C}
    (hc : e.connection = some (q', c)) (h : q' = q → c.Broken) : e.BrokenAt q := by
  intro d hd
  rw [hc] at hd
  cases hd
  exact h rfl

theorem TcpEntry.BrokenAt.of_status {q q' : Nat} {e e' : TcpEntry C} {c c' : TcpConnection C}
    (h : e.BrokenAt q) (hc : e.connection = some (q', c)) (hc' : e'.connection = some (q', c'))
    (hstatus : c'.status = c.status) : e'.BrokenAt q := by
  refine .of_connection hc' fun heq => ?_
  unfold TcpConnection.Broken
  rw [hstatus]
  exact h c (heq ▸ hc)

section Broken

variable {cfg : TcpConfig} {z : TcpHazard} {n m q : Nat} {a : TcpActor} {id : SocketId}
  {outs : List (TcpOutput C)} {x y : Option (TcpEntry C)}

/-- No move but a late connect revives a broken connection. -/
theorem EntryMove.broken (hlate : ¬z.late) (hold : q < m) (hx : ∀ e ∈ x, e.BrokenAt q)
    (h : EntryMove cfg z n m id a outs x y) :
    (∀ e ∈ y, e.BrokenAt q) ∧ ∀ o ∈ outs, ¬o.Revives q := by
  cases h with
  | listening => exact ⟨by simp [TcpEntry.BrokenAt], by simp⟩
  | opened hid hopens hp hq hstatus hfresh houts =>
    have hne : _ ≠ q := Nat.ne_of_gt (hold.trans_le hq)
    refine ⟨fun e he => ?_, ?_⟩
    · cases he
      exact .of_connection rfl fun heq => absurd heq hne
    · rcases houts with rfl | ⟨listenId, rfl⟩ <;> simp [TcpOutput.Revives, hne]
  | connecting hid hopens hp hq =>
    have hne : _ ≠ q := Nat.ne_of_gt (hold.trans_le hq)
    refine ⟨fun e he => ?_, by simp⟩
    cases he
    exact .of_connection rfl fun heq => absurd heq hne
  | closed => exact ⟨by simp, by simp⟩
  | context | paused | resumed | untimed =>
    refine ⟨fun e he => ?_, by simp⟩
    cases he
    intro c hc
    exact hx _ rfl c hc
  | consumed hc | received hc =>
    refine ⟨fun e he => ?_, by simp⟩
    cases he
    exact (hx _ rfl).of_status hc rfl rfl
  | refused hc | reported hc | announced hc =>
    exact ⟨hx, by simp [TcpOutput.Revives]⟩
  | thrown _ _ _ houts =>
    refine ⟨hx, ?_⟩
    rcases houts with rfl | ⟨-, bytes, rfl⟩ <;> simp [TcpOutput.Revives]
  | failed _ hc hstatus _ houts =>
    refine ⟨fun e he => ?_, ?_⟩
    · cases he
      exact .of_connection rfl fun _ => .inl rfl
    · rcases houts with rfl | ⟨-, bytes, rfl⟩ <;> simp [TcpOutput.Revives]
  | @sent _ e q' c message cb _ _ hc hstatus _ hafter =>
    have hne : q' ≠ q := fun heq => (hx e rfl c (heq ▸ hc)).not_connected hstatus
    refine ⟨fun e' he' => ?_, ?_⟩
    · obtain rfl := TcpEntry.afterComplete_eq_some ((Option.mem_def.mp he').symm.trans hafter)
      exact hx _ rfl
    · cases cb <;> simp [TcpOutput.Revives, hne]
  | @started _ e q' c _ _ _ _ _ hc hstatus | @queued _ e q' c _ _ _ _ hc hstatus =>
    have hne : q' ≠ q := fun heq => (hx e rfl c (heq ▸ hc)).not_connected hstatus
    refine ⟨fun e he => ?_, by simp [TcpOutput.Revives, hne]⟩
    cases he
    exact .of_connection rfl fun heq => absurd heq hne
  | errored hc houts =>
    refine ⟨fun e he => ?_, ?_⟩
    · cases he
      exact .of_connection rfl fun _ => .inl rfl
    · rcases houts with rfl | rfl <;> simp [TcpOutput.Revives]
  | peerClosed hc houts =>
    refine ⟨fun e he => ?_, ?_⟩
    · cases he
      exact .of_connection rfl fun _ => .inr rfl
    · rcases houts with rfl | rfl <;> simp [TcpOutput.Revives]
  | @established e q' c outs hc _ _ hconnecting houts =>
    have hne : q' ≠ q := by
      rintro rfl
      rcases hconnecting with hstatus | hz
      · rcases hx e rfl c hc with hbroken | hbroken <;> rw [hstatus] at hbroken <;> cases hbroken
      · exact hlate hz
    refine ⟨fun e he => ?_, ?_⟩
    · cases he
      exact .of_connection rfl fun heq => absurd heq hne
    · rcases houts with rfl | rfl <;> simp [TcpOutput.Revives, hne]
  | wrote _ hc =>
    refine ⟨fun e he => ?_, by simp [TcpOutput.Revives]⟩
    cases he
    exact (hx _ rfl).of_status hc rfl rfl
  | @drained e q' c _ _ _ hc _ _ hafter =>
    refine ⟨fun e' he' => ?_, ?_⟩
    · obtain rfl := TcpEntry.afterComplete_eq_some ((Option.mem_def.mp he').symm.trans hafter)
      exact (hx e rfl).of_status hc rfl rfl
    · cases c.sendCompleteCb <;> simp [TcpOutput.Revives]

end Broken

namespace TcpService

variable {s s' : TcpService C} {id : SocketId} {q : Nat} {c : TcpConnection C}
  {moves : List (TcpOp C × List (TcpOutput C))}

/-- A connection that is broken, or gone. -/
def BrokenAt (q : Nat) (s : TcpService C) : Prop :=
  q < s.connectionObjects.next ∧ ∀ c, s.connectionObjects.cell q = some c → c.Broken

theorem Stepped.brokenAt {op : TcpOp C} {outs : List (TcpOutput C)} (hl : Linked s)
    (hlate : ¬s.ConnectsLate op) (hb : s.BrokenAt q) (h : Stepped s op s' outs) :
    s'.BrokenAt q ∧ ∀ o ∈ outs, ¬o.Revives q := by
  have hstart : ∀ id, ∀ e ∈ s.entry id, e.BrokenAt q := by
    intro id e he c hc
    exact hb.2 c (hl.connection_of_entry he hc).2.1
  obtain ⟨hend, houts⟩ := h.moves.history
    (I := fun T l => (∀ id, ∀ e ∈ T id, e.BrokenAt q) ∧ ∀ o ∈ l, ¬o.Revives q)
    (fun {T l o} hI ho => ⟨hI.1, fun o' ho' => by
      rcases List.mem_append.mp ho' with ho' | ho'
      · exact hI.2 o' ho'
      · obtain rfl := List.mem_singleton.mp ho'
        rintro (⟨listenId, id, rfl⟩ | ⟨message, cb, rfl⟩) <;> cases ho⟩)
    (fun {T l id outs x} hI hmove => by
      obtain ⟨hx, ho⟩ := hmove.broken hlate hb.1 (hI.1 id)
      refine ⟨fun id' e' he' => ?_, fun o' ho' => ?_⟩
      · by_cases hid : id' = id
        · subst hid
          rw [Function.update_self] at he'
          exact hx e' he'
        · rw [Function.update_of_ne hid] at he'
          exact hI.1 id' e' he'
      · rcases List.mem_append.mp ho' with ho' | ho'
        · exact hI.2 o' ho'
        · exact ho o' ho')
    (l := []) ⟨hstart, by simp⟩
  refine ⟨⟨hb.1.trans_le h.connectionNext, fun c hcell => ?_⟩, houts⟩
  obtain ⟨id, e, he, hc⟩ := h.invariant.linked.entry_of_connection_cell hcell
  exact hend id e he c hc

/-- In a run without a late connect a broken connection stays broken: it is not
connected, no message is accepted for it and the user is not told that it is new. -/
theorem Reachable.stays_broken (h : Reachable s) (hc : s.connectionObjects.cell q = some c)
    (hbroken : c.Broken)
    (hrun : Transition.Run (Transition.Guarded (fun s move => ¬s.ConnectsLate move.1) Steps)
      s moves s') :
    (∀ c', s'.connectionObjects.cell q = some c' → c'.Broken) ∧
    (∀ id, s'.connections id = some q → s'.isConnected id = .ok false ∧
      ∀ message cb answer, s'.sendMessage id message cb answer = .ok (s', [.refused q none])) ∧
    ∀ move ∈ moves, ∀ o ∈ move.2, ¬o.Revives q := by
  have hkeep : ∀ {s s' : TcpService C} {moves}, Invariant s → s.BrokenAt q →
      Transition.Run (Transition.Guarded (fun s move => ¬s.ConnectsLate move.1) Steps) s moves s' →
      Invariant s' ∧ s'.BrokenAt q ∧ ∀ move ∈ moves, ∀ o ∈ move.2, ¬o.Revives q := by
    intro s s' moves hi hb hrun
    induction hrun with
    | nil => exact ⟨hi, hb, by simp⟩
    | cons hstep _ ih =>
      obtain ⟨hlate, hstep⟩ := hstep
      have hs := hi.step hstep
      obtain ⟨hb', houts⟩ := hs.brokenAt hi.linked hlate hb
      obtain ⟨hi'', hb'', hmoves⟩ := ih hs.invariant hb'
      exact ⟨hi'', hb'', List.forall_mem_cons.mpr ⟨houts, hmoves⟩⟩
  obtain ⟨hi, hb, hmoves⟩ := hkeep h.invariant
    ⟨ObjectHeap.lt_next hc, fun c' hc' => by cases hc.symm.trans hc'; exact hbroken⟩ hrun
  refine ⟨hb.2, fun id hq => ?_, hmoves⟩
  obtain ⟨e, c', he, -, hcell, -⟩ := hi.linked.entry_of_connections hq
  have hnot := (hb.2 c' hcell).not_connected
  constructor
  · unfold isConnected
    rw [hq]
    dsimp only
    rw [connectionAt_eq hcell, Outcome.ok_bind, decide_eq_false hnot]
  · intro message cb answer
    unfold sendMessage sendMessageOn
    rw [hq]
    dsimp only
    rw [connectionAt_eq hcell, Outcome.ok_bind, if_pos hnot]

/-- The status of a connection. -/
def statusAt (s : TcpService C) (q : Nat) : Option TcpConnection.Status :=
  (s.connectionObjects.cell q).map TcpConnection.status

theorem exists_of_statusAt {status : TcpConnection.Status} (h : s.statusAt q = some status) :
    ∃ c, s.connectionObjects.cell q = some c ∧ c.status = status :=
  Option.map_eq_some_iff.mp h

/-- A connect that fails, after its timeout has been reported. -/
theorem stays_broken_timeout : ∃ (s s' : TcpService Unit) (moves : _),
    Transition.Run Steps s moves s' ∧ s.statusAt 0 = some .pendingError ∧
    (∀ c', s'.connectionObjects.cell 0 = some c' → c'.Broken) ∧
    (∀ id, s'.connections id = some 0 → s'.isConnected id = .ok false ∧
      ∀ message cb answer, s'.sendMessage id message cb answer = .ok (s', [.refused 0 none])) ∧
    ∀ move ∈ moves, ∀ o ∈ move.2, ¬o.Revives 0 := by
  obtain ⟨s, hs, hf⟩ := reachable_of_run (C := Unit)
    [.asyncConnect (.inProgress ⟨⟨3, by omega⟩, true⟩) 10 ⟨0, 0, by decide, by decide⟩,
      .timeout ⟨1, 0, by decide, by decide⟩]
    (fun s => s.statusAt 0 = some .pendingError ∧ s.afterRun [.writable 0 111 .again] fun _ => true)
    (by decide +kernel)
  obtain ⟨hstatus, hafter⟩ := of_decide_eq_true hf
  obtain ⟨s', moves, hrun, -⟩ := exists_of_afterRun hafter
  obtain ⟨c, hc, hpending⟩ := exists_of_statusAt hstatus
  exact ⟨s, s', moves, steps_of_run hrun, hstatus, hs.stays_broken hc (.inl hpending)
    (run_guarded (g := fun s op => ¬s.ConnectsLate op) hrun (by simp [ConnectsLate]))⟩

/-- A connect that completes after its timeout has been reported makes the
connection connected again. -/
theorem connected_again : ∃ (s s' : TcpService Unit) (moves : _), Reachable s ∧
    s.statusAt 0 = some .pendingError ∧ Transition.Run Steps s moves s' ∧
    s'.statusAt 0 = some .connected := by
  obtain ⟨s, hs, hf⟩ := reachable_of_run (C := Unit)
    [.asyncConnect (.inProgress ⟨⟨3, by omega⟩, true⟩) 10 ⟨0, 0, by decide, by decide⟩,
      .timeout ⟨1, 0, by decide, by decide⟩]
    (fun s => s.statusAt 0 = some .pendingError ∧
      s.afterRun [.writable 0 0 .again] fun s' => s'.statusAt 0 = some .connected)
    (by decide +kernel)
  obtain ⟨hstatus, hafter⟩ := of_decide_eq_true hf
  obtain ⟨s', moves, hrun, hagain⟩ := exists_of_afterRun hafter
  exact ⟨s, s', moves, hs, hstatus, steps_of_run hrun, of_decide_eq_true hagain⟩

end TcpService

end Brickred
