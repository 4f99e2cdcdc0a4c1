import Brickred.Service.Handlers

/-!
# Steps and runs of the service

What a step meets of the weak spots is read off the operation and the state before
it (`hazard`). `step_spec` says that a step from a state with the invariant ends in
one again, or uses a deleted object in the one place where a handler goes on behind
a callback without a check (`Dangles`).
-/

namespace Brickred

variable {C : Type}

/-- A message that is sent on a connection, with the state before it. -/
structure TcpSend (C : Type) where
  state : TcpService C
  connection : Nat
  message : List UInt8
  result : SendResult
  allocated : Bool

/-- The weak spots it meets. -/
def TcpSend.hazard (x : TcpSend C) : TcpHazard :=
  x.state.sendHazard x.connection x.message x.result x.allocated

namespace TcpService

/-! ## What a step meets -/

/-- The messages a broadcast sends, one connection after the other. -/
def broadcastSends (buffer : List UInt8) :
    TcpService C → List (SocketId × SendAnswer) → List (TcpSend C)
  | _, [] => []
  | s, (socketId, answer) :: rest =>
    match s.connections socketId with
    | none => broadcastSends buffer s rest
    | some connection =>
      ⟨s, connection, buffer, answer.result, answer.allocated⟩ ::
        match s.sendMessageOn connection buffer none answer with
        | .ok (s', outs) => if thrown outs then [] else broadcastSends buffer s' rest
        | .error _ => []

/-- The messages a step sends. -/
def sends (s : TcpService C) : TcpOp C → List (TcpSend C)
  | .sendMessage socketId buffer _ answer | .sendMessageThenClose socketId buffer answer =>
    (s.connections socketId).toList.map fun q =>
      ⟨s, q, buffer, answer.result, answer.allocated⟩
  | .broadcastMessage buffer answers => broadcastSends buffer s answers
  | _ => []

/-- The sockets a step builds, each with the state before it. -/
def builds (s : TcpService C) : TcpOp C → List (TcpService C × OpenAnswer)
  | .listen (some socket) | .connect (some socket)
  | .asyncConnect (.completed socket) _ _ | .asyncConnect (.inProgress socket) _ _ => [(s, socket)]
  | .callbackReturn accepts =>
    match s.frames with
    | .onListenSocketRead _ :: frames => acceptBuilds { s with frames } accepts
    | _ => []
  | .readable socket accepts _ =>
    match s.frames, (s.socketObjects.cell socket).bind TcpSocket.readCb with
    | [], some .onListenSocketRead => acceptBuilds s accepts
    | _, _ => []
  | _ => []

/-- A connect completes on a connection that no longer waits for it. -/
def ConnectsLate (s : TcpService C) : TcpOp C → Prop
  | .writable socket socketError _ => s.frames = [] ∧ socketError = 0 ∧
    ∃ x q c, s.socketObjects.cell socket = some x ∧ x.writeCb = some .onAsyncConnectSocketWrite ∧
      s.connections x.id = some q ∧ s.connectionObjects.cell q = some c ∧ c.status ≠ .connecting
  | _ => False

/-- A timer is started while the next timer id is still in use. -/
def TimerLost (s : TcpService C) : TcpOp C → Prop
  | .asyncConnect (.inProgress socket) timeoutMs _ =>
    socket.attached = true ∧ timeoutMs > 0 ∧ s.NextTimerBusy
  | .callbackReturn accepts =>
    (∃ p frames, s.frames = .onListenSocketRead p :: frames) ∧ s.PauseLost accepts
  | .readable socket accepts _ => s.frames = [] ∧
    (s.socketObjects.cell socket).bind TcpSocket.readCb = some .onListenSocketRead ∧
      s.PauseLost accepts
  | op => ∃ x ∈ s.sends op, x.hazard.timerLost

/-- What a step meets. -/
def hazard (s : TcpService C) (op : TcpOp C) : TcpHazard where
  late := s.ConnectsLate op
  overwrite := ∃ x ∈ s.sends op, x.hazard.overwrite
  throws := ∃ x ∈ s.sends op, x.hazard.throws
  timerLost := s.TimerLost op
  opens id := ∃ b ∈ s.builds op, (b.1.getId b.2.fd).2 = id
  closes id := op = .closeSocket id

/-- A handler goes on with an object that has been deleted in its callback. -/
def Dangles (s : TcpService C) : TcpOp C → Prop
  | .callbackReturn _ =>
    match s.frames with
    | .onListenSocketRead p :: _ => s.socketObjects.cell p = none
    | .onSocketRead q id :: _ => ∃ q', s.connections id = some q' ∧ q' ≠ q
    | _ => False
  | _ => False

/-! ## The invariant -/

/-- The invariant of a service. -/
structure Invariant (s : TcpService C) : Prop where
  linked : Linked s
  good : s.entry.Good
  frames : FramesOk s s.frames

theorem invariant_init : Invariant (init C) :=
  ⟨linked_init, by simp [TcpTable.Good, entry_init], trivial⟩

variable {s s' : TcpService C} {z : TcpHazard} {a : TcpActor} {id : SocketId}
  {e : TcpEntry C} {p q : Nat} {x : TcpSocket} {c : TcpConnection C}
  {outs : List (TcpOutput C)} {frame : TcpFrame} {frames : List TcpFrame} {op : TcpOp C}

/-- What a waiting handler relies on is kept by the calls its callback makes. -/
theorem FrameOk.of_done (hl : Linked s) (hd : Done z .user s s' outs) (h : FrameOk s frame) :
    FrameOk s' frame := by
  cases frame with
  | finish => trivial
  | onListenSocketRead p =>
    refine ⟨h.1.trans_le hd.socketNext, fun x hx => ?_⟩
    obtain ⟨e', he', rfl, rfl⟩ := hd.linked.entry_of_cell hx
    rcases hd.moves.kept he' with ⟨hnew, -⟩ | ⟨e, he, haddr, hread, -⟩
    · exact absurd h.1 (Nat.not_lt.mpr hnew)
    · obtain ⟨-, hcell, -⟩ := entry_eq_some.mp he
      rw [← hread rfl]
      exact h.2 _ (haddr ▸ hcell)
  | onSocketRead q id =>
    refine ⟨h.1.trans_le hd.connectionNext, fun c hc => ?_⟩
    obtain ⟨id', e', he', hc'⟩ := hd.linked.entry_of_connection_cell hc
    rcases hd.moves.kept he' with ⟨-, hnew⟩ | ⟨e, he, -, -, hconn⟩
    · exact absurd h.1 (Nat.not_lt.mpr (hnew q c hc'))
    · rw [hc'] at hconn
      obtain ⟨⟨q', c'⟩, hce, hqq⟩ := Option.map_eq_some_iff.mp hconn
      obtain rfl : q' = q := hqq
      obtain ⟨hq, hcell, -⟩ := hl.connection_of_entry he hce
      obtain rfl := hl.connection_inj hq (h.2 c' hcell)
      exact (hd.linked.connection_of_entry he' hc').1

theorem FramesOk.imp (hframe : ∀ {frame}, FrameOk s frame → FrameOk s' frame)
    (h : FramesOk s frames) : FramesOk s' frames := by
  induction frames with
  | nil => trivial
  | cons frame frames ih =>
    cases frame with
    | finish => exact ih h
    | onListenSocketRead p => exact ⟨hframe h.1, h.2⟩
    | onSocketRead q id => exact ⟨hframe h.1, h.2⟩

/-- The waiting handlers after a call, or after a handler that was run when none
waited. -/
theorem FramesOk.of_control (h : FramesOk s' frames) (hc : Control frames s' outs) :
    FramesOk s' s'.frames := by
  rcases hc with ⟨hframes, -⟩ | ⟨frame, hframes, hok, -⟩
  · rwa [hframes]
  · rw [hframes]
    rcases hok with rfl | ⟨rfl, hok⟩
    · exact h
    · cases frame with
      | finish => trivial
      | onListenSocketRead p => exact ⟨hok, rfl⟩
      | onSocketRead q id => exact ⟨hok, rfl⟩

/-- A user is called back only for sockets that are in the socket map. -/
theorem Control.calls (h : Control frames s' outs) {o : TcpOutput C} (ho : o ∈ outs)
    (hid : id ∈ o.callees) : s'.sockets id ≠ none := by
  rcases h with ⟨-, hquiet⟩ | ⟨frame, -, -, hcalls⟩
  · rw [hquiet o ho] at hid
    cases hid
  · exact hcalls o ho id hid

/-- The specification of a step. -/
structure Stepped (s : TcpService C) (op : TcpOp C) (s' : TcpService C)
    (outs : List (TcpOutput C)) : Prop where
  invariant : Invariant s'
  moves : Moves s.config (s.hazard op) s.socketObjects.next s.connectionObjects.next .handler
    s.entry outs s'.entry
  config : (∀ setting, op ≠ .set setting) → s'.config = s.config
  socketNext : s.socketObjects.next ≤ s'.socketObjects.next
  connectionNext : s.connectionObjects.next ≤ s'.connectionObjects.next
  calls : ∀ {o id}, o ∈ outs → id ∈ TcpOutput.callees o → s'.sockets id ≠ none

/-- A call of the user. -/
theorem Done.stepped_user (h : Invariant s) (hd : Done (s.hazard op) .user s s' outs) :
    Stepped s op s' outs where
  invariant := ⟨hd.linked, hd.moves.good h.good,
    (h.frames.imp fun hf => hf.of_done h.linked hd).of_control hd.control⟩
  moves := hd.moves.mono le_rfl le_rfl fun _ => rfl
  config _ := hd.config
  socketNext := hd.socketNext
  connectionNext := hd.connectionNext
  calls ho hid := hd.control.calls ho hid

/-- A handler, when no other waits or only such that return at once. -/
theorem Done.stepped_handler (h : Invariant s) (hframes : ∀ s' : TcpService C, FramesOk s' s.frames)
    (hd : Done (s.hazard op) .handler s s' outs) : Stepped s op s' outs where
  invariant := ⟨hd.linked, hd.moves.good h.good, (hframes s').of_control hd.control⟩
  moves := hd.moves
  config _ := hd.config
  socketNext := hd.socketNext
  connectionNext := hd.connectionNext
  calls ho hid := hd.control.calls ho hid

/-! ## Calls of the user -/

theorem sendError_frames (s : TcpService C) (q : Nat) (id : SocketId) (errorCode : Int)
    (now : Timestamp) : Outcome.Ensures (fun _ => True) (fun s' => s'.frames = s.frames)
      (s.sendError q id errorCode now) := by
  unfold sendError addSocketTimer
  cases (s.setConnection q (·.setError errorCode)).timerHeap.addTimer now 0
    .onSendMessageError 1 with
  | none => trivial
  | some r => exact rfl

theorem queueMessage_frames (s : TcpService C) (q : Nat) (c : TcpConnection C) (data : List UInt8)
    (cb : Option (SendCompleteCallback C)) (allocated : Bool) :
    Outcome.Ensures (fun _ => True) (fun r => ∀ s' ∈ r, s'.frames = s.frames)
      (s.queueMessage q c data cb allocated) := by
  rcases queueMessage_spec (s := s) (q := q) c data cb allocated with
    ⟨e₁, -⟩ | e₁ | ⟨writeBuffer, -, -, e₁⟩ <;> rw [e₁]
  · exact fun s' hs' => absurd hs' (by simp)
  · trivial
  · intro s' hs'
    rw [← Option.mem_some.mp hs']
    rfl

/-- A rule for all ways in which a `sendMessage` ends: what is seen of it, and
whether it keeps an error, queues a message or calls the callback at once. -/
theorem sendMessageOn_rule {post : TcpService C × List (TcpOutput C) → Prop}
    (hc : s.connectionObjects.cell q = some c) (message : List UInt8)
    (cb : Option (SendCompleteCallback C)) (answer : SendAnswer)
    (hrefused : post (s, [.refused q none]))
    (hfail : ∀ id errno, Outcome.Ensures (fun _ => True)
      (fun s' => post (s', [.refused q (some errno)]) ∧
        ∀ bytes, post (s', [.written q bytes, .refused q (some errno)]))
      (s.sendError q id errno answer.now))
    (hqueue : ∀ data, Outcome.Ensures (fun _ => True)
      (fun r => match r with
        | none => post (s, [.thrown q]) ∧ ∀ bytes, post (s, [.written q bytes, .thrown q])
        | some s' => post (s', [.accepted q message cb]) ∧
          ∀ p f bytes, post (s'.setSocket p f, [.written q bytes, .accepted q message cb]))
      (s.queueMessage q c data cb answer.allocated))
    (hsend : ∀ id, Outcome.Ensures (fun _ => True)
      (fun r => ∀ bytes, post (r.1, .written q bytes :: .accepted q message cb :: r.2))
      (s.sendComplete q id cb)) :
    Outcome.Ensures (fun _ => True) post (s.sendMessageOn q message cb answer) := by
  unfold sendMessageOn
  rw [connectionAt_eq hc, Outcome.ok_bind]
  split
  · exact hrefused
  have hsocket : Outcome.Ensures (fun _ => True) (fun _ => True) (s.socketAt c.socket) := by
    cases s.socketAt c.socket <;> trivial
  refine hsocket.bind fun x _ => ?_
  split
  · cases answer.result with
    | error errno => exact (hfail x.id errno).bind fun s' hs' => hs'.1
    | accepted _ | again =>
      dsimp only
      split
      · split
        · exact (hfail x.id ENOBUFS).bind fun s' hs' => hs'.2 _
        · refine (hqueue _).bind fun r hr => ?_
          cases r with
          | none => exact hr.2 _
          | some s' => exact hr.2 _ _ _
      · exact (hsend x.id).bind fun r hr => hr _
  · split
    · exact (hfail x.id ENOBUFS).bind fun s' hs' => hs'.1
    · refine (hqueue message).bind fun r hr => ?_
      cases r with
      | none => exact hr.1
      | some s' => exact hr.1

/-- Without a callback of its own a `sendMessage` calls nobody back. -/
theorem sendMessageOn_quiet (hc : s.connectionObjects.cell q = some c) (message : List UInt8)
    (answer : SendAnswer) :
    Outcome.Ensures (fun _ => True) (fun r => r.1.frames = s.frames ∧ ∀ o ∈ r.2, o.callees = [])
      (s.sendMessageOn q message none answer) := by
  refine sendMessageOn_rule hc message none answer ⟨rfl, by simp [TcpOutput.callees]⟩ ?_ ?_ ?_
  · intro id errno
    exact Outcome.Ensures.mono (sendError_frames s q id errno answer.now)
      (fun s' hs' => ⟨⟨hs', by simp [TcpOutput.callees]⟩,
        fun _ => ⟨hs', by simp [TcpOutput.callees]⟩⟩)
      fun _ h => h
  · intro data
    refine Outcome.Ensures.mono (queueMessage_frames s q c data none answer.allocated) (fun r hr => ?_) fun _ h => h
    cases r with
    | none =>
      exact ⟨⟨rfl, by simp [TcpOutput.callees]⟩, fun _ => ⟨rfl, by simp [TcpOutput.callees]⟩⟩
    | some s' =>
      exact ⟨⟨hr s' rfl, by simp [TcpOutput.callees]⟩, fun _ _ _ =>
        ⟨hr s' rfl, by simp [TcpOutput.callees]⟩⟩
  · intro id bytes
    exact ⟨rfl, by simp [TcpOutput.callees]⟩

/-- The weak spots of a step include those of the messages it sends. -/
theorem hazard_of_sends {x : TcpSend C} (hx : x ∈ s.sends op) : x.hazard.Le (s.hazard op) where
  late := False.elim
  overwrite h := ⟨x, hx, h⟩
  throws h := ⟨x, hx, h⟩
  timerLost h := by
    cases op with
    | sendMessage | sendMessageThenClose | broadcastMessage => exact ⟨x, hx, h⟩
    | _ => exact absurd hx (by simp [sends])
  opens _ := False.elim
  closes _ := False.elim

theorem sendMessage_meets (h : Invariant s) (id : SocketId) (message : List UInt8)
    (cb : Option (SendCompleteCallback C)) (answer : SendAnswer)
    (hz : ∀ q, s.connections id = some q →
      (s.sendHazard q message answer.result answer.allocated).Le z)
    (hquiet : ∀ id, ¬z.opens id) :
    Meets z .user s (s.sendMessage id message cb answer) := by
  unfold sendMessage
  cases hq : s.connections id with
  | none => exact (Done.refl h.linked).note rfl rfl
  | some q =>
    obtain ⟨e, c, he, hc, -⟩ := h.linked.entry_of_connections hq
    exact sendMessageOn_meets h.linked (h.good id e he) he hc message cb answer (hz q hq) hquiet

theorem broadcastMessage_meets (h : Linked s) (hg : s.entry.Good) (buffer : List UInt8)
    (answers : List (SocketId × SendAnswer))
    (hz : ∀ x ∈ broadcastSends buffer s answers, x.hazard.Le z) (hquiet : ∀ id, ¬z.opens id) :
    Meets z .user s (broadcastMessage buffer s answers) := by
  induction answers generalizing s with
  | nil => exact .refl h
  | cons turn rest ih =>
    obtain ⟨id, answer⟩ := turn
    unfold broadcastSends at hz
    unfold broadcastMessage
    cases hq : s.connections id with
    | none =>
      rw [hq] at hz
      exact ih h hg hz
    | some q =>
      obtain ⟨e, c, he, hc, hcell, -⟩ := h.entry_of_connections hq
      rw [hq] at hz
      obtain ⟨hfirst, hrest⟩ := List.forall_mem_cons.mp hz
      have hsend := sendMessageOn_meets (a := .user) h (hg id e he) he hc buffer none answer hfirst
        hquiet
      dsimp only
      cases hr : s.sendMessageOn q buffer none answer with
      | error f => exact hsend.of_error hr
      | ok r =>
        obtain ⟨s₁, outs⟩ := r
        obtain ⟨hframes, hquiet⟩ := (sendMessageOn_quiet hcell buffer answer).of_ok hr
        have hd := hsend.of_ok hr
        rw [hr] at hrest
        rw [Outcome.ok_bind]
        dsimp only at hd hframes hquiet hrest ⊢
        split
        · exact hd
        next hthrown =>
          rw [if_neg hthrown] at hrest
          refine (ih hd.linked (hd.moves.good hg) hrest).bind fun r hd' => ?_
          exact hd.trans hframes hquiet hd'

/-- Each message of a broadcast is sent in a state with the invariant of the table. -/
theorem broadcastSends_linked (h : Linked s) (hg : s.entry.Good) (buffer : List UInt8)
    (answers : List (SocketId × SendAnswer)) {x : TcpSend C}
    (hx : x ∈ broadcastSends buffer s answers) : Linked x.state ∧ x.state.entry.Good ∧
      ∃ id, x.state.connections id = some x.connection := by
  induction answers generalizing s with
  | nil => cases hx
  | cons turn rest ih =>
    obtain ⟨id, answer⟩ := turn
    unfold broadcastSends at hx
    cases hq : s.connections id with
    | none =>
      rw [hq] at hx
      exact ih h hg hx
    | some q =>
      rw [hq] at hx
      rcases List.mem_cons.mp hx with rfl | hx
      · exact ⟨h, hg, id, hq⟩
      · obtain ⟨e, c, he, hc, -⟩ := h.entry_of_connections hq
        have hsend := sendMessageOn_meets (a := .user) h (hg id e he) he hc buffer none answer
          (.refl _) fun _ hopens => hopens
        cases hr : s.sendMessageOn q buffer none answer with
        | error f =>
          rw [hr] at hx
          cases hx
        | ok r =>
          have hd := hsend.of_ok hr
          rw [hr] at hx
          dsimp only at hx
          split at hx
          · cases hx
          · exact ih hd.linked (hd.moves.good hg) hx

/-- Every message of a step is sent in a state with the invariant of the table. -/
theorem Invariant.sends (h : Invariant s) {x : TcpSend C} (hx : x ∈ s.sends op) :
    Linked x.state ∧ x.state.entry.Good ∧ ∃ id, x.state.connections id = some x.connection := by
  cases op with
  | sendMessage id | sendMessageThenClose id =>
    obtain ⟨q, hq, rfl⟩ := List.mem_map.mp hx
    exact ⟨h.linked, h.good, id, Option.mem_toList.mp hq⟩
  | broadcastMessage buffer answers => exact broadcastSends_linked h.linked h.good buffer answers hx
  | _ => exact absurd hx (by simp [TcpService.sends])

/-- Timers of the application are in no map of the service. -/
theorem Linked.startTimer_meets (h : Linked s) (timeoutMs callTimes : Int) (now : Timestamp) :
    Meets z a s (do
      let (timerHeap, _) ← orFault .timer (s.timerHeap.addTimer now timeoutMs .user callTimes)
      .ok ({ s with timerHeap }, [])) := by
  obtain ⟨heap, r, e₁, hw, -, hcase⟩ := h.timers.wf.addTimer now timeoutMs .user callTimes
  rw [e₁]
  have hkeep : ∀ id t, t ≠ -1 → s.socketToTimerMap id = some t →
      heap.find? t = s.timerHeap.find? t := by
    intro id t ht hid
    split at hcase
    next hfresh =>
      rw [hcase.2, Function.update_of_ne]
      rintro rfl
      exact h.timers.unused ht hfresh id hid
    next hbusy => rw [hcase.2]
  obtain ⟨hl, hent⟩ := h.otherTimer hw hkeep
  exact ⟨hl, hent ▸ .refl _, rfl, le_rfl, le_rfl, .quiet rfl (by simp)⟩

theorem Linked.stopTimer_meets (h : Linked s) (timerId : Int) :
    Meets z a s (do
      let s ← s.stopTimer timerId
      .ok (s, [])) := by
  unfold stopTimer
  split
  case isFalse => exact .refl h
  next huser =>
    obtain ⟨heap, e₁, hw, -, hfind⟩ := h.timers.wf.removeTimer timerId
    rw [e₁]
    have hkeep : ∀ id t, t ≠ -1 → s.socketToTimerMap id = some t →
        heap.find? t = s.timerHeap.find? t := by
      intro id t ht hid
      rw [hfind, Function.update_of_ne]
      rintro rfl
      obtain ⟨u, hu, -, hcb⟩ := h.timers.pending ht hid
      have hcb' : s.timerCallback t = some u.timerCb := by
        obtain ⟨v, hv, rfl⟩ := Option.map_eq_some_iff.mp hu
        unfold timerCallback
        rw [hv]
        rfl
      exact hcb (Option.some.inj (hcb'.symm.trans huser))
    obtain ⟨hl, hent⟩ := h.otherTimer hw hkeep
    exact ⟨hl, hent ▸ .refl _, rfl, le_rfl, le_rfl, .quiet rfl (by simp)⟩

theorem Linked.consume_done (h : Linked s) (id : SocketId) (size : Nat) :
    Done z a s (s.consume id size) [] := by
  unfold consume
  cases hq : s.connections id with
  | none => exact .refl h
  | some q =>
    obtain ⟨e, c, he, hc, -⟩ := h.entry_of_connections hq
    have h₁ := h.setConnection
      (f := fun conn => { conn with readBuffer := conn.readBuffer.read size }) (fun _ => rfl) q
    exact ⟨h₁, .one he (.consumed hc size) (entry_setConnection h he hc _), rfl, le_rfl, le_rfl,
      .quiet rfl (by simp)⟩

theorem Linked.setContext_done (h : Linked s) (id : SocketId) (context : Nat) :
    Done z a s (s.setContext id context).1 [] := by
  cases he : s.entry id with
  | none =>
    have hnone : s.setContext id context = (s, false) := by
      unfold TcpService.setContext
      rw [h.entry_eq_none.mp he]
      rfl
    rw [hnone]
    exact .refl h
  | some e =>
    obtain ⟨hrun, hl, hent⟩ := h.setContext he context
    rw [hrun]
    exact ⟨hl, .one he (.context context) hent, rfl, le_rfl, le_rfl, .quiet rfl (by simp)⟩

/-! ## Steps -/

/-- The faults a step can end in. -/
def Faults (s : TcpService C) (op : TcpOp C) (fault : TcpFault) : Prop :=
  fault = .buffer ∨ (fault = .dangling ∧ s.Dangles op)

variable {r : Except TcpFault (TcpService C × List (TcpOutput C))}

theorem Meets.stepped_user (h : Invariant s) (hr : Meets (s.hazard op) .user s r) :
    Outcome.Ensures (s.Faults op) (fun r => Stepped s op r.1 r.2) r :=
  Outcome.Ensures.mono hr (fun _ hd => hd.stepped_user h) fun _ hf => .inl hf

theorem Meets.stepped_handler (h : Invariant s) (hframes : s.frames = [])
    (hr : Meets (s.hazard op) .handler s r) :
    Outcome.Ensures (s.Faults op) (fun r => Stepped s op r.1 r.2) r :=
  Outcome.Ensures.mono hr (fun _ hd => hd.stepped_handler h (by rw [hframes]; simp [FramesOk]))
    fun _ hf => .inl hf

/-- An event while a handler waits does nothing. -/
theorem Invariant.onEvent (h : Invariant s)
    (hr : s.frames = [] → Outcome.Ensures (s.Faults op) (fun r => Stepped s op r.1 r.2) r) :
    Outcome.Ensures (s.Faults op) (fun r => Stepped s op r.1 r.2) (s.onEvent r) := by
  unfold TcpService.onEvent
  split
  next hframes => exact hr hframes
  · exact (Done.refl h.linked).stepped_user h

theorem listen_meets (h : Linked s) (socket : Option OpenAnswer)
    (hopens : ∀ y ∈ socket, z.opens (s.getId y.fd).2) :
    Done z a s (s.listen socket).1 [] := by
  cases socket with
  | none => exact .refl h
  | some socket => exact (buildListenSocket_spec h socket (hopens socket rfl)).done (by simp)

theorem connect_meets (h : Linked s) (socket : Option OpenAnswer)
    (hopens : ∀ y ∈ socket, z.opens (s.getId y.fd).2) :
    Outcome.Ensures (· = .buffer) (fun r => Done z a s r.1 []) (s.connect socket) := by
  cases socket with
  | none => exact Done.refl h
  | some socket =>
    exact Outcome.Ensures.mono (buildConnectedSocket_spec h socket (hopens socket rfl))
      (fun r hr => hr.1.done (by simp)) fun _ hf => hf

theorem asyncConnect_meets (h : Linked s) (answer : ConnectAnswer) (timeoutMs : Int)
    (now : Timestamp) (hz : (s.hazard (.asyncConnect answer timeoutMs now)).Le z) :
    Outcome.Ensures (· = .buffer) (fun r => Done z a s r.1 [])
      (s.asyncConnect answer timeoutMs now) := by
  cases answer with
  | failed => exact Done.refl h
  | completed socket =>
    have hopens := hz.opens (s.getId socket.fd).2 ⟨_, List.mem_singleton_self _, rfl⟩
    exact (buildConnectedSocket_spec h socket hopens).bind fun r hr => hr.1.done (by simp)
  | inProgress socket =>
    have hopens := hz.opens (s.getId socket.fd).2 ⟨_, List.mem_singleton_self _, rfl⟩
    refine (buildAsyncConnectSocket_spec h socket timeoutMs now hopens
      fun hattached htimeout hbusy => ?_).bind fun r hr => hr.done (by simp)
    exact hz.timerLost ⟨hattached, htimeout, hbusy⟩

/-- A read event. -/
theorem readable_meets (h : Invariant s) (hframes : s.frames = []) (p : Nat)
    (accepts : List AcceptAnswer) (recvs : List RecvAnswer) :
    Meets (s.hazard (.readable p accepts recvs)) .handler s (s.readable p accepts recvs) := by
  unfold readable
  cases hx : s.socketObjects.cell p with
  | none => exact .refl h.linked
  | some x =>
    rw [Option.bind_some]
    cases hread : x.readCb with
    | none => exact .refl h.linked
    | some cb =>
      cases cb with
      | onSocketRead => exact onSocketRead_meets h.linked hframes hx recvs
      | onListenSocketRead =>
        have hcell : (s.socketObjects.cell p).bind TcpSocket.readCb = some .onListenSocketRead := by
          rw [hx, Option.bind_some, hread]
        refine onListenSocketRead_meets h.linked h.good hframes hx hread accepts
          (fun b hb => ⟨b, ?_, rfl⟩) fun hlost => ⟨hframes, hcell, hlost⟩
        unfold builds
        dsimp only
        rw [hframes, hcell]
        exact hb

/-- A write event. -/
theorem writable_meets (h : Invariant s) (hframes : s.frames = []) (p : Nat) (socketError : Int)
    (result : SendResult) :
    Meets (s.hazard (.writable p socketError result)) .handler s
      (s.writable p socketError result) := by
  unfold writable
  cases hx : s.socketObjects.cell p with
  | none => exact .refl h.linked
  | some x =>
    rw [Option.bind_some]
    cases hwrite : x.writeCb with
    | none => exact .refl h.linked
    | some cb =>
      cases cb with
      | onSocketWrite => exact onSocketWrite_meets h.linked hx hwrite (by simp [hazard, builds]) result
      | onAsyncConnectSocketWrite =>
        refine onAsyncConnectSocketWrite_meets h.linked h.good hx hwrite socketError
          fun hzero ⟨q, c, hq, hc, hstatus⟩ => ?_
        exact ⟨hframes, hzero, x, q, c, hx, hwrite, hq, hc, hstatus⟩

/-- A turn of `checkTimeout`. -/
theorem timeout_meets (h : Invariant s) (now : Timestamp) :
    Meets z .handler s (s.timeout now) := by
  unfold timeout
  rcases h.linked.timers.wf.checkTimeout now with e₁ | ⟨heap, u, e₁, hw, hu, -, hfind⟩
  · rw [e₁]
    exact .refl h.linked
  rw [e₁]
  have hf := h.linked.fired hw hu hfind
  rw [orFault, Outcome.ok_bind]
  dsimp only
  cases hcb : u.timerCb with
  | onListenSocketResumeRead => exact onListenSocketResumeRead_meets hf h.good hcb
  | onAsyncConnectTimeout => exact onAsyncConnectTimeout_meets hf h.good hcb
  | onSendMessageError => exact onSendMessageError_meets hf h.good hcb
  | user =>
    have hnone : s.timerToSocketMap u.id = none := by
      by_contra hne
      obtain ⟨id, hid⟩ := Option.ne_none_iff_exists'.mp hne
      have ht : TcpService.takeTimer { s with timerHeap := heap } u.id = some _ :=
        congrArg (Option.map _) hid
      exact (hf.known ht).1 hcb
    have hd := hf.unknown (z := z) hnone
    exact ⟨hd.linked.invoke _, hd.moves.note rfl, rfl, le_rfl, le_rfl,
      .invoke (s := { s with timerHeap := heap }) (by simp [TcpOutput.callees])⟩

/-- The return of a callback. -/
theorem callbackReturn_spec (h : Invariant s) (accepts : List AcceptAnswer)
    (hframes : s.frames = frame :: frames) :
    Outcome.Ensures (s.Faults (.callbackReturn accepts))
      (fun r => Stepped s (.callbackReturn accepts) r.1 r.2)
      (resume { s with frames } accepts frame) := by
  have hok : FramesOk s (frame :: frames) := hframes ▸ h.frames
  have hpop : ∀ {a : TcpActor} {s' : TcpService C} {outs},
      Done (s.hazard (.callbackReturn accepts)) a { s with frames } s' outs →
        FramesOk s' frames → Stepped s (.callbackReturn accepts) s' outs :=
    fun {a s' outs} hd hf => ⟨⟨hd.linked, hd.moves.good h.good, hf.of_control hd.control⟩,
      hd.moves.mono le_rfl le_rfl fun _ => rfl, fun _ => hd.config, hd.socketNext,
      hd.connectionNext, fun ho hid => hd.control.calls ho hid⟩
  have hl : Linked { s with frames } := ⟨h.linked.objects, h.linked.timers, h.linked.keys⟩
  cases frame with
  | finish =>
    have hf : FramesOk s frames := hok
    exact hpop (a := .user) (.refl hl) (FramesOk.imp (s := s) (fun hf => hf) hf)
  | onListenSocketRead p =>
    obtain ⟨hframe, rfl⟩ := hok
    cases hx : s.socketObjects.cell p with
    | none =>
      -- the first thing the loop does is to look at the socket
      have hat : socketAt { s with frames := [] } p = .error .dangling := by
        unfold socketAt
        dsimp only
        rw [hx]
        rfl
      have hrun : onListenSocketRead p { s with frames := [] } accepts = .error .dangling := by
        cases accepts <;> unfold onListenSocketRead <;> rw [hat] <;> rfl
      show Outcome.Ensures _ _ (onListenSocketRead p { s with frames := [] } accepts)
      rw [hrun]
      refine .inr ⟨rfl, ?_⟩
      unfold Dangles
      dsimp only
      rw [hframes]
      exact hx
    | some x =>
      have hbuilds : s.builds (.callbackReturn accepts) =
          acceptBuilds { s with frames := [] } accepts := by
        unfold builds
        dsimp only
        rw [hframes]
      refine Outcome.Ensures.mono (onListenSocketRead_meets hl h.good rfl hx (hframe.2 x hx) accepts
        (z := s.hazard (.callbackReturn accepts)) (fun b hb => ⟨b, hbuilds ▸ hb, rfl⟩)
        fun hlost => ⟨⟨p, [], hframes⟩, hlost⟩) (fun r hd => hpop hd trivial) fun _ hf => .inl hf
  | onSocketRead q id =>
    obtain ⟨hframe, rfl⟩ := hok
    by_cases hsame : ∀ q', s.connections id = some q' → q' = q
    · exact Outcome.Ensures.mono (afterRecvMessage_meets hl hsame) (fun r hd => hpop hd trivial)
        fun _ hf => .inl hf
    · -- another connection has the id
      obtain ⟨q', hq', hne⟩ : ∃ q', s.connections id = some q' ∧ q' ≠ q := by
        by_contra hnone
        exact hsame fun q' hq' => by_contra fun hne => hnone ⟨q', hq', hne⟩
      have hdead : s.connectionObjects.cell q = none := by
        by_contra hlive
        obtain ⟨c, hc⟩ := Option.ne_none_iff_exists'.mp hlive
        exact hne (Option.some.inj (hq'.symm.trans (hframe.2 c hc)))
      have hrun : afterRecvMessage { s with frames := [] } q id = .error .dangling := by
        unfold afterRecvMessage onPeerClose connectionAt
        dsimp only
        rw [hq', hdead]
        rfl
      show Outcome.Ensures _ _ (afterRecvMessage { s with frames := [] } q id)
      rw [hrun]
      refine .inr ⟨rfl, ?_⟩
      unfold Dangles
      dsimp only
      rw [hframes]
      exact ⟨q', hq', hne⟩

/-- The specification of all steps. -/
theorem step_spec (h : Invariant s) (op : TcpOp C) :
    Outcome.Ensures (s.Faults op) (fun r => Stepped s op r.1 r.2) (s.step op) := by
  cases op with
  | set setting =>
    exact ⟨⟨⟨h.linked.objects, h.linked.timers, h.linked.keys⟩, h.good,
      FramesOk.imp (s := s) (fun hf => hf) h.frames⟩, .refl _, fun hne => absurd rfl (hne setting),
      le_rfl, le_rfl, by simp⟩
  | listen socket =>
    have hd := listen_meets (z := s.hazard (.listen socket)) (a := .user) h.linked socket
      fun y hy => ⟨(s, y), by cases hy; exact List.mem_singleton_self _, rfl⟩
    exact (hd.note rfl rfl).stepped_user h
  | connect socket =>
    have hr := connect_meets (z := s.hazard (.connect socket)) (a := .user) h.linked socket
      fun y hy => ⟨(s, y), by cases hy; exact List.mem_singleton_self _, rfl⟩
    exact Meets.stepped_user h (hr.bind fun r hd => hd.note rfl rfl)
  | asyncConnect answer timeoutMs now =>
    have hr := asyncConnect_meets (a := .user) h.linked answer timeoutMs now (.refl _)
    exact Meets.stepped_user h (hr.bind fun r hd => hd.note rfl rfl)
  | sendMessage id buffer cb answer | sendMessageThenClose id buffer answer =>
    refine Meets.stepped_user h (sendMessage_meets h id buffer _ answer (fun q hq => ?_) ?_)
    · refine hazard_of_sends (x := ⟨s, q, buffer, answer.result, answer.allocated⟩) ?_
      unfold sends
      simp [hq]
    · simp [hazard, builds]
  | broadcastMessage buffer answers =>
    exact Meets.stepped_user h (broadcastMessage_meets h.linked h.good buffer answers
      (fun x hx => hazard_of_sends hx) (by simp [hazard, builds]))
  | closeSocket id =>
    obtain ⟨s', e₁, hd, -⟩ := h.linked.closeSocket_done (z := s.hazard (.closeSocket id))
      (a := .user) id rfl
    refine Meets.stepped_user h ?_
    show Meets _ _ s (do
      let s ← s.closeSocket id
      .ok (s, []))
    rw [e₁]
    exact hd
  | setContext id context =>
    exact ((h.linked.setContext_done id context).note rfl rfl).stepped_user h
  | consume id size => exact (h.linked.consume_done id size).stepped_user h
  | startTimer timeoutMs callTimes now =>
    exact Meets.stepped_user h (h.linked.startTimer_meets timeoutMs callTimes now)
  | stopTimer timerId => exact Meets.stepped_user h (h.linked.stopTimer_meets timerId)
  | callbackReturn accepts =>
    cases hframes : s.frames with
    | nil =>
      unfold step
      dsimp only
      rw [hframes]
      exact (Done.refl h.linked).stepped_user h
    | cons frame frames =>
      unfold step
      dsimp only
      rw [hframes]
      exact callbackReturn_spec h accepts hframes
  | readable socket accepts recvs =>
    exact h.onEvent fun hframes => (readable_meets h hframes socket accepts recvs).stepped_handler h
      hframes
  | writable socket socketError result =>
    exact h.onEvent fun hframes =>
      (writable_meets h hframes socket socketError result).stepped_handler h hframes
  | error socket socketError =>
    refine h.onEvent fun hframes => Meets.stepped_handler h hframes ?_
    unfold error
    split
    · exact .refl h.linked
    next hx => exact onSocketError_meets h.linked hx socketError
  | timeout now => exact h.onEvent fun hframes => (timeout_meets h now).stepped_handler h hframes

/-! ## Runs -/

/-- A state a new service can get into. -/
def Reachable (s : TcpService C) : Prop := ∃ moves, Transition.Run Steps (init C) moves s

/-- One step after the other. -/
def run (s : TcpService C) :
    List (TcpOp C) → Except TcpFault (TcpService C × List (TcpOp C × List (TcpOutput C)))
  | [] => .ok (s, [])
  | op :: ops => do
    let (s, outs) ← s.step op
    let (s, moves) ← run s ops
    .ok (s, (op, outs) :: moves)

/-- Steps that are made one after the other are a run of the steps a guard allows, if
it allows these operations in every state. -/
theorem run_guarded {g : TcpService C → TcpOp C → Prop} {ops : List (TcpOp C)}
    {moves : List (TcpOp C × List (TcpOutput C))} (h : s.run ops = .ok (s', moves))
    (hall : ∀ op ∈ ops, ∀ s, g s op) :
    Transition.Run (Transition.Guarded (fun s move => g s move.1) Steps) s moves s' := by
  induction ops generalizing s moves with
  | nil =>
    cases h
    exact .nil
  | cons op ops ih =>
    obtain ⟨hop, hops⟩ := List.forall_mem_cons.mp hall
    unfold run at h
    cases hstep : s.step op with
    | error fault =>
      rw [hstep] at h
      cases h
    | ok r =>
      rw [hstep, Outcome.ok_bind] at h
      dsimp only at h
      cases hrun : r.1.run ops with
      | error fault =>
        rw [hrun] at h
        cases h
      | ok r' =>
        rw [hrun] at h
        cases h
        exact .cons ⟨hop s, hstep⟩ (ih hrun hops)

/-- A test of the state at the end of a run. -/
def afterRun (s : TcpService C) (ops : List (TcpOp C)) (f : TcpService C → Bool) : Bool :=
  match s.run ops with
  | .ok r => f r.1
  | .error _ => false

theorem exists_of_afterRun {ops : List (TcpOp C)} {f : TcpService C → Bool}
    (h : s.afterRun ops f = true) : ∃ s' moves, s.run ops = .ok (s', moves) ∧ f s' = true := by
  unfold afterRun at h
  split at h
  next r hrun => exact ⟨r.1, r.2, hrun, h⟩
  · cases h

theorem steps_of_run {ops : List (TcpOp C)} {moves : List (TcpOp C × List (TcpOutput C))}
    (h : s.run ops = .ok (s', moves)) : Transition.Run Steps s moves s' :=
  (run_guarded (g := fun _ _ => True) h fun _ _ _ => trivial).mono And.right

/-- A state that a test finds at the end of a run from a new service. -/
theorem reachable_of_run (ops : List (TcpOp C)) (f : TcpService C → Bool)
    (h : (init C).afterRun ops f = true) : ∃ s, Reachable s ∧ f s = true := by
  obtain ⟨s, moves, hrun, hf⟩ := exists_of_afterRun h
  exact ⟨s, ⟨moves, steps_of_run hrun⟩, hf⟩

theorem Reachable.run (h : Reachable s) {moves : List (TcpOp C × List (TcpOutput C))}
    (hrun : Transition.Run Steps s moves s') : Reachable s' := by
  obtain ⟨before, hbefore⟩ := h
  exact ⟨_, hbefore.append hrun⟩

theorem Invariant.step (h : Invariant s) {move : TcpOp C × List (TcpOutput C)}
    (hstep : Steps s move s') : Stepped s move.1 s' move.2 :=
  (step_spec h move.1).of_ok hstep

theorem Invariant.run {moves : List (TcpOp C × List (TcpOutput C))} (h : Invariant s)
    (hrun : Transition.Run Steps s moves s') : Invariant s' :=
  hrun.invariant (fun hs hstep => (hs.step hstep).invariant) h

theorem Reachable.invariant (h : Reachable s) : Invariant s := by
  obtain ⟨moves, hrun⟩ := h
  exact invariant_init.run hrun

end TcpService

end Brickred
