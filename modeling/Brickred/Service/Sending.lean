import Brickred.Service.Good

/-!
# What a call of the service does

`Done` is the specification shared by all calls and handlers: the result is linked
again, the table has made a sequence of moves, and control is with the user only
at a callback for sockets that are in the socket map. This module proves it of the
primitives and of the calls that send.
-/

namespace Brickred

variable {C : Type}

/-- The socket ids a user's callback is called for. -/
def TcpOutput.callees : TcpOutput C → List SocketId
  | .newConnection listenId _ socketId => [listenId, socketId]
  | .recvMessage _ socketId | .peerClose _ socketId | .error _ socketId _
  | .completed _ socketId (.user _) => [socketId]
  | _ => []

/-- A buffer has to grow, and to more than a vector can have or without the memory for it. -/
def DynamicBuffer.growthFails (b : DynamicBuffer) (size : Nat) (allocated : Bool) : Bool :=
  b.discardableBytes + b.writableBytes < size ∧ (2 ^ 63 ≤ b.grownCapacity size ∨ allocated = false)

/-- A growth that throws fails; so does one whose capacity has wrapped. -/
theorem DynamicBuffer.growthFails_of_throws {b : DynamicBuffer} {size : Nat} {allocated : Bool}
    (h : b.growthThrows size allocated = true) : b.growthFails size allocated = true := by
  obtain ⟨-, hgrows, hlarge⟩ := of_decide_eq_true h
  exact decide_eq_true ⟨hgrows, hlarge.imp_left fun hle => hle.trans (Nat.mod_le _ _)⟩

namespace TcpService

/-- What a waiting handler relies on, as long as the object it holds is there. -/
def FrameOk (s : TcpService C) : TcpFrame → Prop
  | .onListenSocketRead p => p < s.socketObjects.next ∧
    ∀ x, s.socketObjects.cell p = some x → x.readCb = some .onListenSocketRead
  | .onSocketRead q id => q < s.connectionObjects.next ∧
    ∀ c, s.connectionObjects.cell q = some c → s.connections id = some q
  | .finish => True

/-- A handler that goes on after its callback is the outermost one: the others wait
for the callback of a `sendMessage`. -/
def FramesOk (s : TcpService C) : List TcpFrame → Prop
  | [] => True
  | .finish :: frames => FramesOk s frames
  | frame :: frames => FrameOk s frame ∧ frames = []

/-- Either no callback has been called and no handler waits, or the user is in a
callback. -/
def Control (frames : List TcpFrame) (s' : TcpService C) (outs : List (TcpOutput C)) : Prop :=
  (s'.frames = frames ∧ ∀ o ∈ outs, o.callees = []) ∨
  ∃ frame, s'.frames = frame :: frames ∧ (frame = .finish ∨ frames = [] ∧ FrameOk s' frame) ∧
    ∀ o ∈ outs, ∀ id ∈ o.callees, s'.sockets id ≠ none

/-- The specification of a call or a handler. -/
structure Done (z : TcpHazard) (a : TcpActor) (s s' : TcpService C) (outs : List (TcpOutput C)) :
    Prop where
  linked : Linked s'
  moves : Moves s.config z s.socketObjects.next s.connectionObjects.next a s.entry outs s'.entry
  config : s'.config = s.config
  socketNext : s.socketObjects.next ≤ s'.socketObjects.next
  connectionNext : s.connectionObjects.next ≤ s'.connectionObjects.next
  control : Control s.frames s' outs

/-- A computation that meets the specification, or ends the run in a buffer. -/
def Meets (z : TcpHazard) (a : TcpActor) (s : TcpService C)
    (r : Except TcpFault (TcpService C × List (TcpOutput C))) : Prop :=
  Outcome.Ensures (· = .buffer) (fun r => Done z a s r.1 r.2) r

variable {s s' s'' : TcpService C} {z z' : TcpHazard} {a : TcpActor} {id : SocketId}
  {e : TcpEntry C} {p q : Nat} {x : TcpSocket} {c : TcpConnection C}
  {outs outs' : List (TcpOutput C)} {o : TcpOutput C} {frames : List TcpFrame}
  {cb : Option (SendCompleteCallback C)}

theorem socketAt_eq (hx : s.socketObjects.cell p = some x) : s.socketAt p = .ok x := by
  unfold socketAt
  rw [hx]
  rfl

theorem connectionAt_eq (hc : s.connectionObjects.cell q = some c) : s.connectionAt q = .ok c := by
  unfold connectionAt
  rw [hc]
  rfl

theorem socketAt_entry (he : s.entry id = some e) :
    s.socketAt e.address = .ok e.socket :=
  socketAt_eq (entry_eq_some.mp he).2.1

theorem Linked.connectionAt (h : Linked s) (he : s.entry id = some e)
    (hc : e.connection = some (q, c)) : s.connectionAt q = .ok c :=
  connectionAt_eq (h.connection_of_entry he hc).2.1

/-! ## Rules for `Control` and `Done` -/

theorem Control.quiet (hframes : s'.frames = frames) (houts : ∀ o ∈ outs, o.callees = []) :
    Control frames s' outs := .inl ⟨hframes, houts⟩

theorem Control.invoke (houts : ∀ o ∈ outs, ∀ id ∈ o.callees, s.sockets id ≠ none) :
    Control s.frames (s.invoke .finish) outs :=
  .inr ⟨.finish, rfl, .inl rfl, houts⟩

theorem Control.append (h : Control frames s' outs') (outs : List (TcpOutput C))
    (houts : ∀ o ∈ outs, o.callees = []) :
    Control frames s' (outs ++ outs') := by
  rcases h with ⟨hframes, hquiet⟩ | ⟨frame, hframes, hok, hcalls⟩
  · refine .inl ⟨hframes, fun o ho => ?_⟩
    rcases List.mem_append.mp ho with ho | ho
    · exact houts o ho
    · exact hquiet o ho
  · refine .inr ⟨frame, hframes, hok, fun o ho id hid => ?_⟩
    rcases List.mem_append.mp ho with ho | ho
    · rw [houts o ho] at hid
      cases hid
    · exact hcalls o ho id hid

theorem Done.refl (h : Linked s) : Done z a s s [] :=
  ⟨h, .refl _, rfl, le_rfl, le_rfl, .quiet rfl (by simp)⟩

/-- A call after one that has called nobody back. -/
theorem Done.trans (h₁ : Done z a s s' outs) (hframes : s'.frames = s.frames)
    (houts : ∀ o ∈ outs, o.callees = []) (h₂ : Done z a s' s'' outs') :
    Done z a s s'' (outs ++ outs') := by
  refine ⟨h₂.linked, h₁.moves.trans ?_, h₂.config.trans h₁.config,
    h₁.socketNext.trans h₂.socketNext, h₁.connectionNext.trans h₂.connectionNext, ?_⟩
  · have hm := h₂.moves.mono h₁.socketNext h₁.connectionNext id
    rwa [h₁.config] at hm
  · have hc := h₂.control
    rw [hframes] at hc
    exact hc.append _ houts

/-- A result that is handed out says nothing about a connection. -/
theorem Done.note (h : Done z a s s' outs) (ho : o.connection = none) (hcalls : o.callees = []) :
    Done z a s s' (outs ++ [o]) := by
  refine ⟨h.linked, h.moves.note ho, h.config, h.socketNext, h.connectionNext, ?_⟩
  rcases h.control with ⟨hframes, hquiet⟩ | ⟨frame, hframes, hok, hall⟩
  · refine .inl ⟨hframes, fun o' ho' => ?_⟩
    rcases List.mem_append.mp ho' with ho' | ho'
    · exact hquiet o' ho'
    · rw [List.mem_singleton.mp ho', hcalls]
  · refine .inr ⟨frame, hframes, hok, fun o' ho' i hi => ?_⟩
    rcases List.mem_append.mp ho' with ho' | ho'
    · exact hall o' ho' i hi
    · rw [List.mem_singleton.mp ho', hcalls] at hi
      cases hi

/-- A user's callback is called for a socket. -/
theorem Linked.invoke (h : Linked s) (frame : TcpFrame) : Linked (s.invoke frame) :=
  ⟨h.objects, h.timers, h.keys⟩

/-- `closeSocket` by itself. -/
theorem Linked.closeSocket_done (h : Linked s) (id : SocketId) (hcloses : z.closes id) :
    ∃ s', s.closeSocket id = .ok s' ∧ Done z a s s' [] ∧ s'.entry = Function.update s.entry id none ∧
      Closed s id s' := by
  obtain ⟨s', e₁, hl, hent, hc⟩ := h.closeSocket id
  refine ⟨s', e₁, ⟨hl, ?_, hc.config, hc.socketNext.ge, hc.connectionNext.ge,
    .quiet hc.frames (by simp)⟩, hent, hc⟩
  cases he : s.entry id with
  | none =>
    rw [hent, ← he, Function.update_eq_self]
    exact .refl _
  | some e => exact .one he (.closed hcloses) hent

/-! ## Calling a send-completion callback -/

/-- The callback of the user gets control, that of `sendMessageThenClose` closes the
socket. -/
theorem Linked.sendComplete (h : Linked s) (he : s.entry id = some e)
    (cb : Option (SendCompleteCallback C)) :
    ∃ s', s.sendComplete q id cb = .ok (s', (cb.map (.completed q id)).toList) ∧ Linked s' ∧
      s'.entry = Function.update s.entry id (e.afterComplete cb) ∧ s'.config = s.config ∧
      s'.socketObjects.next = s.socketObjects.next ∧
      s'.connectionObjects.next = s.connectionObjects.next ∧
      Control s.frames s' (cb.map (.completed q id)).toList := by
  have hsame : s.entry = Function.update s.entry id (some e) :=
    (Function.update_eq_self_iff.mpr he.symm).symm
  cases cb with
  | none => exact ⟨s, rfl, h, hsame, rfl, rfl, rfl, .quiet rfl (by simp)⟩
  | some cb =>
    cases cb with
    | user cb =>
      refine ⟨s.invoke .finish, rfl, h.invoke _, hsame, rfl, rfl, rfl, .invoke ?_⟩
      intro o ho i hi
      obtain rfl : o = .completed q id (.user cb) := by simpa using ho
      obtain rfl : i = id := by simpa [TcpOutput.callees] using hi
      rw [(entry_eq_some.mp he).1]
      simp
    | sendCompleteClose =>
      obtain ⟨s', e₁, hl, hent, hclosed⟩ := h.closeSocket id
      refine ⟨s', ?_, hl, hent, hclosed.config, hclosed.socketNext, hclosed.connectionNext,
        .quiet hclosed.frames (by simp [TcpOutput.callees])⟩
      unfold TcpService.sendComplete
      rw [e₁]
      rfl

/-! ## The weak spots of a `sendMessage` -/

/-- The next timer id is that of a pending timer. -/
def NextTimerBusy (s : TcpService C) : Prop := s.timerHeap.find? s.timerHeap.getId.2 ≠ none

/-- The bytes of a message that would go into the write buffer. -/
def bytesToQueue (c : TcpConnection C) (message : List UInt8) (result : SendResult) : Nat :=
  if c.writeBuffer.readable = [] then message.length - result.writeSize message.length
  else message.length

/-- A message is refused with an error. -/
def SendFails (s : TcpService C) (c : TcpConnection C) (message : List UInt8)
    (result : SendResult) : Prop :=
  (c.writeBuffer.readable = [] ∧ ∃ errno, result = .error errno) ∨
  ((c.writeBuffer.readable ≠ [] ∨ 0 < bytesToQueue c message result) ∧
    s.writeOverflow c.writeBuffer (bytesToQueue c message result) = true)

/-- The weak spots that a `sendMessage` on a connection meets: a timer is started
for an error, a message is queued behind one whose callback is still to be called,
or the write buffer has to grow and cannot. -/
def sendHazard (s : TcpService C) (q : Nat) (message : List UInt8) (result : SendResult)
    (allocated : Bool) : TcpHazard where
  late := False
  overwrite := ∃ c, s.connectionObjects.cell q = some c ∧ c.status = .connected ∧
    ¬s.SendFails c message result ∧ c.writeBuffer.readable ≠ [] ∧
    c.writeBuffer.growthThrows message.length allocated = false ∧ c.sendCompleteCb ≠ none
  throws := ∃ c, s.connectionObjects.cell q = some c ∧ c.status = .connected ∧
    ¬s.SendFails c message result ∧
    c.writeBuffer.growthFails (bytesToQueue c message result) allocated = true
  timerLost := s.NextTimerBusy ∧ ∃ c, s.connectionObjects.cell q = some c ∧
    c.status = .connected ∧ s.SendFails c message result
  opens _ := False
  closes _ := False

theorem TimerStarted.timerSet {timerCb : TimerCallback}
    {timer : Int × Option (Timer TimerCallback)} (hbusy : s.NextTimerBusy → z.timerLost)
    (h : TimerStarted s timerCb timer) : z.TimerSet timerCb timer := by
  rcases h with ⟨u, rfl, hcb, hpos⟩ | ⟨rfl, hne⟩
  · exact .inl ⟨_, u, rfl, hpos, hcb⟩
  · exact .inr ⟨rfl, hbusy hne⟩

/-! ## `sendMessage` -/

theorem Linked.sendError (h : Linked s) (he : s.entry id = some e) (hc : e.connection = some (q, c))
    (hnone : e.timer = none) (errorCode : Int) (now : Timestamp) :
    ∃ heap b b' timer, s.sendError q id errorCode now =
        .ok ((s.setConnection q (·.setError errorCode)).withTimers heap b b') ∧
      Linked ((s.setConnection q (·.setError errorCode)).withTimers heap b b') ∧
      ((s.setConnection q (·.setError errorCode)).withTimers heap b b').entry =
        Function.update s.entry id
          (some { e with connection := some (q, c.setError errorCode), timer := some timer }) ∧
      TimerStarted s .onSendMessageError timer := by
  have h₁ := h.setConnection (f := (·.setError errorCode)) (fun _ => rfl) q
  have ht₁ := entry_setConnection h he hc (·.setError errorCode)
  have he₁ : (s.setConnection q (·.setError errorCode)).entry id = _ :=
    (congrFun ht₁ id).trans (Function.update_self ..)
  obtain ⟨heap, b, b', timer, e₁, hl, hent, hstart⟩ :=
    h₁.addSocketTimer he₁ hnone 0
      (by simp : TimerCallback.onSendMessageError ≠ .user) now
  refine ⟨heap, b, b', timer, e₁, hl, ?_, hstart⟩
  rw [hent, ht₁, Function.update_idem]

/-- A send that fails with an error. -/
theorem Linked.sendError_done (h : Linked s) (hg : e.Good) (he : s.entry id = some e)
    (hc : e.connection = some (q, c)) (hstatus : c.status = .connected)
    (hquiet : ∀ id, ¬z.opens id) (hbusy : s.NextTimerBusy → z.timerLost) (errorCode : Int)
    (now : Timestamp)
    (houts : outs = [.refused q (some errorCode)] ∨ c.writeBuffer.readable = [] ∧
      ∃ bytes, outs = [.written q bytes, .refused q (some errorCode)]) :
    Meets z a s (do
      let s ← s.sendError q id errorCode now
      .ok (s, outs)) := by
  obtain ⟨hnone, -⟩ := (hg.connection hc).connected hstatus
  obtain ⟨heap, b, b', timer, e₁, hl, hent, hstart⟩ := h.sendError he hc hnone errorCode now
  rw [e₁, Outcome.ok_bind]
  refine ⟨hl, .one he (.failed hquiet hc hstatus (hstart.timerSet hbusy) houts) hent, rfl, le_rfl, le_rfl,
    .quiet rfl ?_⟩
  rcases houts with rfl | ⟨-, bytes, rfl⟩ <;> simp [TcpOutput.callees]

/-- Appending to the write buffer. -/
theorem queueMessage_spec (conn : TcpConnection C) (data : List UInt8)
    (cb : Option (SendCompleteCallback C)) (allocated : Bool) :
    (s.queueMessage q conn data cb allocated = .ok none ∧
      conn.writeBuffer.growthThrows data.length allocated = true) ∨
    s.queueMessage q conn data cb allocated = .error .buffer ∨
    ∃ writeBuffer, conn.writeBuffer.growthThrows data.length allocated = false ∧
      writeBuffer.readable = conn.writeBuffer.readable ++ data ∧
      s.queueMessage q conn data cb allocated =
        .ok (some (s.setConnection q ({ · with writeBuffer, sendCompleteCb := cb }))) := by
  unfold queueMessage
  by_cases hthrows : conn.writeBuffer.growthThrows data.length allocated = true
  · exact .inl ⟨if_pos hthrows, hthrows⟩
  · rw [if_neg hthrows]
    cases hb : conn.writeBuffer.writeBytes data with
    | none => exact .inr (.inl rfl)
    | some writeBuffer =>
      exact .inr (.inr ⟨writeBuffer, Bool.eq_false_of_not_eq_true hthrows,
        DynamicBuffer.readable_writeBytes hb, rfl⟩)

/-- What the check of the limit promises. -/
theorem within_of_writeOverflow {writeBuffer : DynamicBuffer} {size : Nat}
    (h : s.writeOverflow writeBuffer size = false) :
    Within s.config.connWriteBufferMaxSize (size + writeBuffer.readableBytes) := by
  intro hpos
  by_contra hgt
  unfold writeOverflow at h
  simp [hpos, Nat.lt_of_not_le hgt] at h

section SendMessage

variable (h : Linked s) (hg : e.Good) (he : s.entry id = some e) (hc : e.connection = some (q, c))
  (hstatus : c.status = .connected) (message : List UInt8) (cb : Option (SendCompleteCallback C))
  (answer : SendAnswer) (hz : (s.sendHazard q message answer.result answer.allocated).Le z)
  (hquiet : ∀ id, ¬z.opens id)
include h hg he hc hstatus hz hquiet

/-- The end of a `sendMessage` that keeps an error. -/
theorem sendFails_meets (hfails : s.SendFails c message answer.result) (errorCode : Int)
    (houts : outs = [.refused q (some errorCode)] ∨ c.writeBuffer.readable = [] ∧
      ∃ bytes, outs = [.written q bytes, .refused q (some errorCode)]) :
    Meets z a s (do
      let s ← s.sendError q id errorCode answer.now
      .ok (s, outs)) := by
  obtain ⟨-, hcell, -⟩ := h.connection_of_entry he hc
  exact h.sendError_done hg he hc hstatus hquiet
    (fun hbusy => hz.timerLost ⟨hbusy, c, hcell, hstatus, hfails⟩) errorCode answer.now houts

omit hg in
/-- The end of a `sendMessage` whose message the write buffer could not take. -/
theorem thrown_meets (hfails : ¬s.SendFails c message answer.result)
    (hthrows : c.writeBuffer.growthThrows (bytesToQueue c message answer.result)
      answer.allocated = true)
    (houts : outs = [.thrown q] ∨ c.writeBuffer.readable = [] ∧
      ∃ bytes, outs = [.written q bytes, .thrown q]) :
    Meets z a s (.ok (s, outs)) := by
  obtain ⟨-, hcell, -⟩ := h.connection_of_entry he hc
  have hgrowth := DynamicBuffer.growthFails_of_throws hthrows
  refine ⟨h, .one he (.thrown hquiet hc (hz.throws ⟨c, hcell, hstatus, hfails, hgrowth⟩) houts) ?_, rfl,
    le_rfl, le_rfl, .quiet rfl ?_⟩
  · rw [← he, Function.update_eq_self]
  · rcases houts with rfl | ⟨-, bytes, rfl⟩ <;> simp [TcpOutput.callees]

/-- With an empty write buffer, when the `send` does not fail. -/
theorem sendDirect_meets (hempty : c.writeBuffer.readableBytes = 0)
    (hresult : ∀ errno, answer.result ≠ .error errno) :
    let writeSize := answer.result.writeSize message.length
    let written := .written q (message.take writeSize)
    let remain := message.drop writeSize
    Meets z a s (if remain.length > 0 then
        if s.writeOverflow c.writeBuffer remain.length then do
          let s ← s.sendError q id ENOBUFS answer.now
          .ok (s, [written, .refused q (some ENOBUFS)])
        else do
          match ← s.queueMessage q c remain cb answer.allocated with
          | none => .ok (s, [written, .thrown q])
          | some s =>
            let s := s.setSocket e.address ({ · with writeCb := some .onSocketWrite })
            .ok (s, [written, .accepted q message cb])
      else do
        let (s, outs) ← s.sendComplete q id cb
        .ok (s, written :: .accepted q message cb :: outs)) := by
  intro k written remain
  have hnil := DynamicBuffer.readableBytes_eq_zero.mp hempty
  have hbytes : bytesToQueue c message answer.result = remain.length := by
    unfold bytesToQueue
    rw [if_pos hnil, List.length_drop]
  by_cases hremain : remain.length > 0
  · rw [if_pos hremain]
    have hlt : k < message.length := by
      rw [List.length_drop] at hremain
      omega
    cases hover : s.writeOverflow c.writeBuffer remain.length with
    | true =>
      exact sendFails_meets h hg he hc hstatus message answer hz hquiet
        (.inr ⟨.inr (hbytes ▸ hremain), hbytes ▸ hover⟩) _ (.inr ⟨hnil, _, rfl⟩)
    | false =>
      have hfails : ¬s.SendFails c message answer.result := by
        rintro (⟨-, errno, herror⟩ | ⟨-, hover'⟩)
        · exact hresult errno herror
        · rw [hbytes, hover] at hover'
          cases hover'
      rw [if_neg (by simp)]
      rcases queueMessage_spec (s := s) (q := q) c remain cb answer.allocated with
        ⟨e₁, hthrows⟩ | e₁ | ⟨writeBuffer, -, hread, e₁⟩ <;> rw [e₁]
      · exact thrown_meets h he hc hstatus message answer hz hquiet hfails (hbytes ▸ hthrows)
          (.inr ⟨hnil, _, rfl⟩)
      · exact rfl
      · rw [hnil, List.nil_append] at hread
        have h₁ := h.setConnection
          (f := ({ · with writeBuffer, sendCompleteCb := cb })) (fun _ => rfl) q
        have ht₁ := entry_setConnection h he hc ({ · with writeBuffer, sendCompleteCb := cb })
        have he₁ := (congrFun ht₁ id).trans (Function.update_self ..)
        refine ⟨h₁.setSocket (f := ({ · with writeCb := some .onSocketWrite })) (fun _ => rfl) _,
          .one he (.started hquiet hc hstatus hnil hlt hread ?_) ?_, rfl, le_rfl, le_rfl,
          .quiet rfl (by simp [written, TcpOutput.callees])⟩
        · have hwithin := within_of_writeOverflow hover
          rwa [hempty, Nat.add_zero, ← hread, DynamicBuffer.length_readable] at hwithin
        · exact (entry_setSocket h₁ he₁ ({ · with writeCb := some .onSocketWrite })).trans
            (by rw [ht₁, Function.update_idem])
  · -- the kernel has taken all of it
    rw [if_neg hremain]
    have htake : message.take k = message := by
      rw [List.take_of_length_le]
      rw [List.length_drop] at hremain
      omega
    obtain ⟨s', e₁, hl, hent, hconfig, hn, hm, hcontrol⟩ := h.sendComplete (q := q) he cb
    rw [e₁, Outcome.ok_bind]
    refine ⟨hl, .one he ?_ hent, hconfig, hn.ge, hm.ge, ?_⟩
    · dsimp only
      rw [show written = .written q message from congrArg _ htake]
      exact .sent hquiet hc hstatus hnil rfl
    · exact hcontrol.append [_, _] (by simp [written, TcpOutput.callees])

/-- With bytes in the write buffer. -/
theorem sendBehind_meets (hempty : c.writeBuffer.readableBytes ≠ 0) :
    Meets z a s (if s.writeOverflow c.writeBuffer message.length then do
        let s ← s.sendError q id ENOBUFS answer.now
        .ok (s, [.refused q (some ENOBUFS)])
      else do
        match ← s.queueMessage q c message cb answer.allocated with
        | none => .ok (s, [.thrown q])
        | some s => .ok (s, [.accepted q message cb])) := by
  obtain ⟨-, hcell, -⟩ := h.connection_of_entry he hc
  have hne : c.writeBuffer.readable ≠ [] := mt DynamicBuffer.readableBytes_eq_zero.mpr hempty
  have hbytes : bytesToQueue c message answer.result = message.length := if_neg hne
  cases hover : s.writeOverflow c.writeBuffer message.length with
  | true =>
    exact sendFails_meets h hg he hc hstatus message answer hz hquiet
      (.inr ⟨.inl hne, hbytes ▸ hover⟩) _ (.inl rfl)
  | false =>
    have hfails : ¬s.SendFails c message answer.result := by
      rintro (⟨hnil, -⟩ | ⟨-, hover'⟩)
      · exact hne hnil
      · rw [hbytes, hover] at hover'
        cases hover'
    rw [if_neg (by simp)]
    rcases queueMessage_spec (s := s) (q := q) c message cb answer.allocated with
      ⟨e₁, hthrows⟩ | e₁ | ⟨writeBuffer, hgrows, hread, e₁⟩ <;> rw [e₁]
    · exact thrown_meets h he hc hstatus message answer hz hquiet hfails (hbytes ▸ hthrows) (.inl rfl)
    · exact rfl
    · refine ⟨h.setConnection (f := ({ · with writeBuffer, sendCompleteCb := cb })) (fun _ => rfl) q,
        .one he (.queued hquiet hc hstatus hne hread ?_ ?_)
          (entry_setConnection h he hc ({ · with writeBuffer, sendCompleteCb := cb })), rfl,
        le_rfl, le_rfl, .quiet rfl (by simp [TcpOutput.callees])⟩
      · have hwithin := within_of_writeOverflow hover
        rwa [Nat.add_comm, ← DynamicBuffer.length_readable, ← List.length_append, ← hread,
          DynamicBuffer.length_readable] at hwithin
      · by_cases hcb : c.sendCompleteCb = none
        · exact .inl hcb
        · exact .inr (hz.overwrite ⟨c, hcell, hstatus, hfails, hne, hgrows, hcb⟩)

end SendMessage

theorem sendMessageOn_meets (h : Linked s) (hg : e.Good) (he : s.entry id = some e)
    (hc : e.connection = some (q, c)) (message : List UInt8)
    (cb : Option (SendCompleteCallback C)) (answer : SendAnswer)
    (hz : (s.sendHazard q message answer.result answer.allocated).Le z) (hquiet : ∀ id, ¬z.opens id) :
    Meets z a s (s.sendMessageOn q message cb answer) := by
  obtain ⟨-, -, hsock⟩ := h.connection_of_entry he hc
  unfold sendMessageOn
  rw [h.connectionAt he hc, Outcome.ok_bind]
  by_cases hstatus : c.status = .connected
  case neg =>
    rw [if_pos hstatus]
    exact ⟨h, .one he (.refused hc hstatus) (by rw [← he, Function.update_eq_self]), rfl, le_rfl,
      le_rfl, .quiet rfl (by simp [TcpOutput.callees])⟩
  rw [if_neg (not_not.mpr hstatus), hsock, socketAt_entry he, Outcome.ok_bind, h.socket_id he]
  by_cases hempty : c.writeBuffer.readableBytes = 0
  · rw [if_pos hempty]
    cases hresult : answer.result with
    | error errno =>
      exact sendFails_meets h hg he hc hstatus message answer hz hquiet
        (.inl ⟨DynamicBuffer.readableBytes_eq_zero.mp hempty, errno, hresult⟩) _ (.inl rfl)
    | accepted k =>
      have key := sendDirect_meets (a := a) h hg he hc hstatus message cb answer hz hquiet hempty
        (by simp [hresult])
      rw [hresult] at key
      exact key
    | again =>
      have key := sendDirect_meets (a := a) h hg he hc hstatus message cb answer hz hquiet hempty
        (by simp [hresult])
      rw [hresult] at key
      exact key
  · rw [if_neg hempty]
    exact sendBehind_meets h hg he hc hstatus message cb answer hz hquiet hempty

end TcpService

end Brickred
