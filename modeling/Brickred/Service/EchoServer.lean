import Brickred.Service.WriteBuffers

/-!
# `EchoServer` (`test/echo_server.cc`)

The server of the tests sends back what it receives. It is a user of the service: an event
may invoke one of its callbacks, which makes its calls and returns before the next event.
What is proved of it puts the two ledgers of a connection together: what the kernel has
taken for a connection is a beginning of what it has handed over for that connection, and
while the server waits for events the rest is in the write buffer.
-/

namespace Brickred

/-- The calls that a server has made of its service, and what is seen of each. -/
abbrev EchoLog := List (TcpOp Empty × List (TcpOutput Empty))

/-- `EchoServer`, and the callback that is running. It passes no completion callbacks. -/
structure EchoServer where
  tcpService : TcpService Empty
  callback : Option (TcpOutput Empty)

/-- An event, or the running callback with the answers of the kernel that it needs. -/
inductive EchoOp
  | readable (socket : Nat) (accepts : List AcceptAnswer) (recvs : List RecvAnswer)
  | writable (socket : Nat) (socketError : Int) (result : SendResult)
  | error (socket : Nat) (socketError : Int)
  | timeout (now : Timestamp)
  | callback (answer : SendAnswer) (accepts : List AcceptAnswer)

namespace EchoServer

open TcpService (init Notices)

/-- Make a call of the service. -/
def call (s : TcpService Empty) (op : TcpOp Empty) : Except TcpFault (TcpService Empty × EchoLog) := do
  let (s, outs) ← s.step op
  .ok (s, [(op, outs)])

/-- The callback that has been invoked. -/
def invoked (outs : List (TcpOutput Empty)) : Option (TcpOutput Empty) :=
  outs.find? fun
    | .newConnection _ _ _ | .recvMessage _ _ | .peerClose _ _ | .error _ _ _ | .timer _ => true
    | _ => false

/-! ## Callbacks -/

/-- `EchoServer::onRecvMessage` for the buffer of a connection. An exception leaves the
loop, and with it the program. -/
def onRecvMessage (s : TcpService Empty) (connection : Nat) (socketId : SocketId)
    (answer : SendAnswer) : Except TcpFault (TcpService Empty × EchoLog) := do
  let conn ← s.connectionAt connection
  let bufferString := conn.readBuffer.readable
  let (s, reading) ← call s (.consume socketId conn.readBuffer.readableBytes)
  -- echo back
  let (s, sending) ← call s (.sendMessage socketId bufferString none answer)
  if TcpService.thrown (TcpService.seen sending) then
    .error .buffer
  else if TcpService.accepts (TcpService.seen sending) then
    .ok (s, reading ++ sending)
  else
    let (s, closing) ← call s (.closeSocket socketId)
    .ok (s, reading ++ sending ++ closing)

/-- The callbacks. `EchoServer::onNewConnection` only prints. -/
def onCallback (s : TcpService Empty) (answer : SendAnswer) :
    TcpOutput Empty → Except TcpFault (TcpService Empty × EchoLog)
  | .recvMessage connection socketId => onRecvMessage s connection socketId answer
  | .peerClose _ socketId | .error _ socketId _ => call s (.closeSocket socketId)
  | _ => .ok (s, [])

/-- A callback runs and returns. -/
def runCallback (e : EchoServer) (answer : SendAnswer) (accepts : List AcceptAnswer) :
    Except TcpFault (EchoServer × EchoLog) :=
  match e.callback with
  | none => .ok (e, [])
  | some out => do
    let (s, calls) ← onCallback e.tcpService answer out
    let (s, returning) ← call s (.callbackReturn accepts)
    .ok (⟨s, invoked (TcpService.seen returning)⟩, calls ++ returning)

/-- The loop hands out an event when no callback is running. -/
def onEvent (e : EchoServer) (event : TcpOp Empty) : Except TcpFault (EchoServer × EchoLog) :=
  match e.callback with
  | some _ => .ok (e, [])
  | none => do
    let (s, handling) ← call e.tcpService event
    .ok (⟨s, invoked (TcpService.seen handling)⟩, handling)

def step (e : EchoServer) : EchoOp → Except TcpFault (EchoServer × EchoLog)
  | .readable socket accepts recvs => e.onEvent (.readable socket accepts recvs)
  | .writable socket socketError result => e.onEvent (.writable socket socketError result)
  | .error socket socketError => e.onEvent (.error socket socketError)
  | .timeout now => e.onEvent (.timeout now)
  | .callback answer accepts => e.runCallback answer accepts

/-! ## The program -/

/-- `EchoServer::EchoServer` -/
def construct : List TcpSetting :=
  [.newConnectionCallback true, .recvMessageCallback true, .peerCloseCallback true,
    .errorCallback true]

/-- What the server does before its loop. -/
def start (socket : Option OpenAnswer) : List (TcpOp Empty) := construct.map .set ++ [.listen socket]

/-- `listen` has returned a socket id that is not negative. -/
def listens (log : EchoLog) : Bool :=
  (TcpService.seen log).all fun | .returnedId socketId => socketId ≥ 0 | _ => true

/-- `EchoServer::run`, from the socket it opens; the loop has made the given rounds. -/
def run (socket : Option OpenAnswer) (ops : List EchoOp) : Except TcpFault (EchoServer × EchoLog) := do
  let (s, log) ← Transition.exec TcpService.step (init Empty) (start socket)
  if listens log then
    let (e, rounds) ← Transition.exec step ⟨s, none⟩ ops
    .ok (e, log ++ rounds.flatMap Prod.snd)
  else
    .ok (⟨s, none⟩, log)

/-! ## The ledgers -/

/-- The bytes that `recv` has handed over for a connection. -/
def received (q : Nat) (log : EchoLog) : List UInt8 :=
  TcpService.ledger TcpService.arrives q (init Empty) (log.map Prod.fst)

/-- The bytes that the server has taken out of the read buffer of a connection. -/
def taken (q : Nat) (log : EchoLog) : List UInt8 :=
  TcpService.ledger TcpService.takes q (init Empty) (log.map Prod.fst)

/-- The bytes of a connection that the kernel has taken. -/
def sent (q : Nat) (log : EchoLog) : List UInt8 := handed (traffic q (TcpService.seen log))

variable {s s' : TcpService Empty} {log log' : EchoLog} {op : TcpOp Empty}
  {outs : List (TcpOutput Empty)} {q : Nat} {id : SocketId}

theorem sent_snoc (q : Nat) (log : EchoLog) (op : TcpOp Empty) (outs : List (TcpOutput Empty)) :
    sent q (log ++ [(op, outs)]) = sent q log ++ handed (traffic q outs) := by
  unfold sent TcpService.seen
  rw [List.flatMap_append, traffic_append, handed_append, List.flatMap_singleton]

theorem snoc_run (h : Transition.Run TcpService.Steps (init Empty) log s)
    (hstep : s.step op = .ok (s', outs)) :
    Transition.Run TcpService.Steps (init Empty) (log ++ [(op, outs)]) s' :=
  h.append (.cons hstep .nil)

theorem received_snoc (h : Transition.Run TcpService.Steps (init Empty) log s) (q : Nat)
    (op : TcpOp Empty) (outs : List (TcpOutput Empty)) : received q (log ++ [(op, outs)]) =
      received q log ++ TcpService.bytesOf q (s.arrives op) :=
  TcpService.ledger_snoc _ q h op outs

theorem taken_snoc (h : Transition.Run TcpService.Steps (init Empty) log s) (q : Nat)
    (op : TcpOp Empty) (outs : List (TcpOutput Empty)) : taken q (log ++ [(op, outs)]) =
      taken q log ++ TcpService.bytesOf q (s.takes op) :=
  TcpService.ledger_snoc _ q h op outs

/-- The read side of a step. -/
theorem ledger_step (h : Transition.Run TcpService.Steps (init Empty) log s)
    (hstep : s.step op = .ok (s', outs))
    (hledger : ∀ q, TcpService.Ledger (received q log) (taken q log) q s) (q : Nat) :
    TcpService.Ledger (received q (log ++ [(op, outs)])) (taken q (log ++ [(op, outs)])) q s' := by
  rw [received_snoc h, taken_snoc h]
  exact (hledger q).step (TcpService.step_balances hstep)

/-- What the server has taken of a connection it has sent, or the write buffer holds it, but
for a connection `x` that is to be closed; and it sends nothing that it has not received. -/
structure Echoes (x : Option Nat) (log : EchoLog) (s : TcpService Empty) : Prop where
  run : Transition.Run TcpService.Steps (init Empty) log s
  ledger : ∀ q, TcpService.Ledger (received q log) (taken q log) q s
  held : ∀ q bytes, x ≠ some q → s.shows TcpService.writes q = some bytes →
    taken q log = sent q log ++ bytes
  echo : ∀ q, sent q log <+: received q log

variable {x : Option Nat}

theorem echoes_init : Echoes none [] (init Empty) where
  run := .nil
  ledger _ := ⟨List.nil_prefix, fun _ h => (by cases h), fun _ => rfl⟩
  held _ _ _ h := by cases h
  echo _ := List.nil_prefix

/-- A connection that has gone has nothing left to send. -/
theorem Echoes.closed (h : Echoes (some q) log s) (hgone : s.connectionObjects.cell q = none) :
    Echoes none log s := by
  refine ⟨h.run, h.ledger, fun q' bytes _ hq' => h.held q' bytes ?_ hq', h.echo⟩
  intro heq
  obtain rfl := Option.some.inj heq
  rw [TcpService.shows, hgone] at hq'
  cases hq'

/-- A step in which the server takes nothing and calls no `sendMessage`. -/
theorem Echoes.drains (h : Echoes x log s) (hstep : s.step op = .ok (s', outs))
    (hdrains : TcpService.Drains s s' outs) (htakes : s.takes op = none)
    (hx : ∀ q, x = some q → handed (traffic q outs) = []) : Echoes x (log ++ [(op, outs)]) s' := by
  have htaken : ∀ q, taken q (log ++ [(op, outs)]) = taken q log := fun q => by
    rw [taken_snoc h.run, htakes]
    exact List.append_nil _
  have hnew : ∀ q, s.connectionObjects.next ≤ q → s.shows TcpService.writes q = none := by
    intro q hle
    cases hc : s.connectionObjects.cell q with
    | none => rw [TcpService.shows, hc]; rfl
    | some c => exact absurd (ObjectHeap.lt_next hc) (Nat.not_lt_of_le hle)
  refine ⟨snoc_run h.run hstep, ledger_step h.run hstep h.ledger, fun q bytes hne hq => ?_, fun q => ?_⟩
  · rw [htaken, sent_snoc, List.append_assoc]
    rcases hdrains.shows q bytes hq with hold | ⟨hle, rfl⟩
    · exact h.held q _ hne hold
    · have hhanded := hdrains.taken q
      rw [hnew q hle, Option.getD_none, List.prefix_nil] at hhanded
      have hzero : received q log = [] := (h.ledger q).new hle
      have htook : taken q log = [] := List.prefix_nil.mp (hzero ▸ (h.ledger q).order)
      have hgone : sent q log = [] := List.prefix_nil.mp (hzero ▸ h.echo q)
      rw [hhanded, htook, hgone]
      rfl
  · rw [received_snoc h.run, sent_snoc]
    refine List.IsPrefix.trans ?_ (List.prefix_append _ _)
    by_cases hne : x = some q
    · rw [hx q hne, List.append_nil]
      exact h.echo q
    have hhanded := hdrains.taken q
    cases hq : s.shows TcpService.writes q with
    | none =>
      rw [hq, Option.getD_none, List.prefix_nil] at hhanded
      rw [hhanded, List.append_nil]
      exact h.echo q
    | some bytes =>
      rw [hq, Option.getD_some] at hhanded
      refine List.IsPrefix.trans ?_ (h.ledger q).order
      rw [h.held q bytes hne hq]
      exact (List.prefix_append_right_inj _).mpr hhanded

/-! ## The receive callback -/

/-- What is left when the server has taken all that the read buffer of `c` holds. -/
structure Emptied (id : SocketId) (s : TcpService Empty) (q : Nat) (c : TcpConnection Empty)
    (s₁ : TcpService Empty) : Prop where
  connections : s₁.connections = s.connections
  cell : ∃ c₁, s₁.connectionObjects.cell q = some c₁ ∧ c₁.writeBuffer = c.writeBuffer
  reads : s₁.shows TcpService.reads q = some []
  others : ∀ q', q' ≠ q → s₁.shows TcpService.reads q' = s.shows TcpService.reads q'
  writes : ∀ q', s₁.shows TcpService.writes q' = s.shows TcpService.writes q'
  takes : s.takes (.consume id c.readBuffer.readableBytes) = some (q, c.readBuffer.readable)

theorem consume_emptied (hq : s.connections id = some q) {c : TcpConnection Empty}
    (hc : s.connectionObjects.cell q = some c) {s₁ : TcpService Empty}
    (h : s.step (.consume id c.readBuffer.readableBytes) = .ok (s₁, outs)) :
    outs = [] ∧ Emptied id s q c s₁ := by
  unfold TcpService.step TcpService.consume at h
  dsimp only at h
  rw [hq] at h
  cases h
  refine ⟨rfl, rfl, ⟨_, ObjectHeap.cell_update_self hc, rfl⟩, ?_, fun q' hne => ?_, fun q' => ?_, ?_⟩
  · rw [TcpService.shows_setConnection, if_pos rfl, hc, Option.map_some]
    show some (c.readBuffer.read c.readBuffer.readableBytes).readable = some []
    rw [DynamicBuffer.readable_read, ← DynamicBuffer.length_readable, List.drop_length]
  · rw [TcpService.shows_setConnection, if_neg hne]
  · rw [TcpService.shows_setConnection]
    split
    next heq => rw [heq, TcpService.shows]; rfl
    next => rfl
  · have hall : c.readBuffer.readable.take c.readBuffer.readableBytes = c.readBuffer.readable := by
      rw [← DynamicBuffer.length_readable, List.take_length]
    simp [TcpService.takes, hq, hc, hall]

/-- The callback takes what the read buffer holds and sends it: if that is not accepted, the
connection is to be closed. -/
theorem Echoes.sends (h : Echoes none log s) (hq : s.connections id = some q)
    {c : TcpConnection Empty} (hc : s.connectionObjects.cell q = some c) {s₁ s₂ : TcpService Empty}
    {outs₁ outs₂ : List (TcpOutput Empty)} {answer : SendAnswer}
    (htake : s.step (.consume id c.readBuffer.readableBytes) = .ok (s₁, outs₁))
    (hsend : s₁.step (.sendMessage id c.readBuffer.readable none answer) = .ok (s₂, outs₂)) :
    s₂.connections = s.connections ∧ Echoes (if TcpService.accepts outs₂ then none else some q)
      (log ++ [(.consume id c.readBuffer.readableBytes, outs₁)] ++
        [(.sendMessage id c.readBuffer.readable none answer, outs₂)]) s₂ := by
  obtain ⟨rfl, hemptied⟩ := consume_emptied hq hc htake
  obtain ⟨c₁, hc₁, hbuffer⟩ := hemptied.cell
  have hsends : TcpService.Sends s₁ q c₁ c.readBuffer.readable (s₂, outs₂) := by
    unfold TcpService.step TcpService.sendMessage at hsend
    dsimp only at hsend
    rw [hemptied.connections, hq] at hsend
    exact Outcome.Ensures.of_ok (TcpService.sendMessageOn_sends hc₁ _ answer) hsend
  have hrun := snoc_run h.run htake
  have hledger := ledger_step hrun hsend (ledger_step h.run htake h.ledger)
  have htaken : ∀ q', taken q' (log ++ [(.consume id c.readBuffer.readableBytes, [])] ++
      [(.sendMessage id c.readBuffer.readable none answer, outs₂)]) =
        taken q' log ++ if q' = q then c.readBuffer.readable else [] := by
    intro q'
    rw [taken_snoc hrun, taken_snoc h.run, hemptied.takes]
    show taken q' log ++ (if q = q' then _ else []) ++ [] = _
    simp only [eq_comm, List.append_nil]
  have hreceived : ∀ q', received q' (log ++ [(.consume id c.readBuffer.readableBytes, [])] ++
      [(.sendMessage id c.readBuffer.readable none answer, outs₂)]) = received q' log := by
    intro q'
    rw [received_snoc hrun, received_snoc h.run]
    show received q' log ++ [] ++ [] = _
    rw [List.append_nil, List.append_nil]
  have hsent : ∀ q', sent q' (log ++ [(.consume id c.readBuffer.readableBytes, [])] ++
      [(.sendMessage id c.readBuffer.readable none answer, outs₂)]) =
        sent q' log ++ handed (traffic q' outs₂) := by
    intro q'
    rw [sent_snoc, sent_snoc]
    show sent q' log ++ [] ++ _ = _
    rw [List.append_nil]
  have hhad : taken q log = sent q log ++ c.writeBuffer.readable :=
    h.held q _ (by simp) (congrArg (Option.map _) hc)
  refine ⟨hsends.connections.trans hemptied.connections, snoc_run hrun hsend, hledger,
    fun q' bytes hne hq' => ?_, fun q' => ?_⟩
  · rw [htaken, hsent]
    by_cases heq : q' = q
    · subst heq
      have haccepts : TcpService.accepts outs₂ = true := by
        by_contra hno
        exact hne (if_neg hno)
      rw [if_pos rfl, hhad, List.append_assoc, List.append_assoc, ← hbuffer]
      exact congrArg _ (hsends.accepted haccepts bytes hq')
    · obtain ⟨hshows, hhanded⟩ := hsends.others q' heq
      rw [if_neg heq, List.append_nil, hhanded, List.append_nil]
      exact h.held q' bytes (by simp) ((hemptied.writes q').symm.trans (hshows.symm.trans hq'))
  · rw [hreceived, hsent]
    by_cases heq : q' = q
    · subst heq
      have horder := (hledger q').order
      rw [htaken, hreceived, if_pos rfl, hhad, List.append_assoc, ← hbuffer] at horder
      exact ((List.prefix_append_right_inj _).mpr hsends.begun).trans horder
    · rw [(hsends.others q' heq).2, List.append_nil]
      exact h.echo q'

/-! ## The state between events -/

/-- A callback is running that takes the bytes of a connection or closes it. -/
def Serves (s : TcpService Empty) (q : Nat) (callback : Option (TcpOutput Empty)) : Prop :=
  ∃ id, s.connections id = some q ∧ (callback = some (.recvMessage q id) ∨
    callback = some (.peerClose q id) ∨ ∃ errorCode, callback = some (.error q id errorCode))

/-- The server has its callbacks installed. -/
def Installed (c : TcpConfig) : Prop :=
  c.recvMessageCb = true ∧ c.peerCloseCb = true ∧ c.errorCb = true

/-- Read buffers are empty, but for that of a connection whose callback is running. -/
structure Serving (e : EchoServer) (log : EchoLog) : Prop where
  echoes : Echoes none log e.tcpService
  installed : Installed e.tcpService.config
  empty : ∀ q bytes, e.tcpService.held q = some bytes →
    bytes = [] ∨ Serves e.tcpService q e.callback
  named : ∀ q id, e.callback = some (.recvMessage q id) → e.tcpService.connections id = some q

/-- All read buffers are empty. -/
def Idle (s : TcpService Empty) : Prop := ∀ q bytes, s.held q = some bytes → bytes = []

theorem Idle.same (h : Idle s) (hsame : TcpService.SameReads s s') : Idle s' := by
  intro q bytes hq
  rcases hsame.shows q bytes hq with hq | ⟨-, hnew⟩
  · exact h q bytes hq
  · exact hnew

theorem Echoes.config (h : Echoes x log s) (hstep : s.step op = .ok (s', outs))
    (hset : ∀ setting, op ≠ .set setting) : s'.config = s.config := by
  have hmove : TcpService.Steps s (op, outs) s' := hstep
  exact ((TcpService.invariant_init.run h.run).step hmove).config hset

theorem step_of_call (h : call s op = .ok (s', log')) :
    ∃ outs, s.step op = .ok (s', outs) ∧ log' = [(op, outs)] := by
  obtain ⟨⟨s₁, outs⟩, hstep, hlog⟩ := Outcome.exists_of_bind h
  cases hlog
  exact ⟨outs, hstep, rfl⟩

/-- A call that takes, sends and delivers nothing. -/
theorem call_quiet (h : Echoes x log s) (hcall : call s op = .ok (s', log'))
    (hsame : TcpService.Keep TcpService.buffers ([], []) s Prod.fst (s.step op))
    (hnotices : TcpService.Notifies (s.step op)) (htakes : s.takes op = none) :
    Echoes x (log ++ log') s' ∧ TcpService.SameBuffers s s' := by
  obtain ⟨outs, hstep, rfl⟩ := step_of_call hcall
  have hbuffers : TcpService.SameBuffers s s' := hsame.of_ok hstep
  have hquiet : ∀ q, handed (traffic q outs) = [] := TcpService.Notices.handed (hnotices.of_ok hstep)
  exact ⟨h.drains hstep (hbuffers.toWrites.drains hquiet) htakes fun q _ => hquiet q, hbuffers⟩

/-- Closing a socket deletes its connection. -/
theorem closeSocket_gone (hq : s.connections id = some q) :
    Outcome.Ensures (fun _ => True) (fun s' => s'.connectionObjects.cell q = none)
      (s.closeSocket id) := by
  have htimer : Outcome.Ensures (fun _ => True) (fun s₁ => s₁.connections = s.connections)
      (s.removeSocketTimer id) := by
    unfold TcpService.removeSocketTimer
    split
    · exact rfl
    · exact .bind_of_forall fun _ => rfl
  refine htimer.bind fun s₁ hs₁ => ?_
  have hgone : Outcome.Ensures (fun _ => True) (fun s₂ => s₂.connectionObjects.cell q = none)
      (s₁.eraseConnection id) := by
    unfold TcpService.eraseConnection
    rw [hs₁, hq]
    dsimp only
    cases hm : s₁.connectionObjects.free q with
    | none => trivial
    | some m =>
      obtain ⟨c, -, rfl⟩ := Option.map_eq_some_iff.mp hm
      exact if_pos rfl
  refine hgone.bind fun s₂ hs₂ => ?_
  have hsocket : Outcome.Ensures (fun _ => True) (fun s₃ => s₃.connectionObjects.cell q = none)
      (s₂.eraseSocket id) := by
    unfold TcpService.eraseSocket
    split
    · exact hs₂
    · exact .bind_of_forall fun _ => hs₂
  exact hsocket.bind fun s₃ hs₃ => hs₃

/-- The server closes a socket. -/
theorem call_closeSocket (h : Echoes x log s) (hcall : call s (.closeSocket id) = .ok (s', log')) :
    Echoes x (log ++ log') s' ∧ TcpService.SameBuffers s s' ∧
      ∀ q, s.connections id = some q → s'.connectionObjects.cell q = none := by
  have hsame : TcpService.Keep TcpService.buffers ([], []) s Prod.fst (s.step (.closeSocket id)) :=
    (TcpService.closeSocket_same s id).bind fun s₁ => TcpService.Same.refl s₁
  have hnotices : TcpService.Notifies (s.step (.closeSocket id)) :=
    .bind_of_forall fun _ => TcpService.notices_nil
  obtain ⟨hechoes, hbuffers⟩ := call_quiet h hcall hsame hnotices rfl
  refine ⟨hechoes, hbuffers, fun q hq => ?_⟩
  obtain ⟨outs, hstep, rfl⟩ := step_of_call hcall
  obtain ⟨s₂, hclose, hs₂⟩ := Outcome.exists_of_bind hstep
  cases hs₂
  exact (closeSocket_gone hq).of_ok hclose

theorem cell_of_connectionAt {c : TcpConnection Empty} (h : s.connectionAt q = .ok c) :
    s.connectionObjects.cell q = some c := by
  unfold TcpService.connectionAt at h
  cases hc : s.connectionObjects.cell q with
  | none =>
    rw [hc] at h
    cases h
  | some c' =>
    rw [hc] at h
    cases h
    rfl

theorem onRecvMessage_echoes (h : Echoes none log s) (hq : s.connections id = some q)
    (hothers : ∀ q' bytes, q' ≠ q → s.held q' = some bytes → bytes = []) {answer : SendAnswer}
    (hrun : onRecvMessage s q id answer = .ok (s', log')) :
    Echoes none (log ++ log') s' ∧ Idle s' ∧ s'.config = s.config := by
  obtain ⟨c, hat, hrun⟩ := Outcome.exists_of_bind hrun
  have hc := cell_of_connectionAt hat
  obtain ⟨⟨s₁, reading⟩, hreading, hrun⟩ := Outcome.exists_of_bind hrun
  obtain ⟨⟨s₂, sending⟩, hsending, hrun⟩ := Outcome.exists_of_bind hrun
  obtain ⟨outs₁, htake, rfl⟩ := step_of_call hreading
  obtain ⟨outs₂, hsend, rfl⟩ := step_of_call hsending
  obtain ⟨hconnections, hechoes⟩ := h.sends hq hc htake hsend
  obtain ⟨-, hemptied⟩ := consume_emptied hq hc htake
  have hinvariant := TcpService.invariant_init.run (snoc_run h.run htake)
  have hconfig : s₂.config = s.config := by
    have hmove : TcpService.Steps s₁ (_, outs₂) s₂ := hsend
    exact ((hinvariant.step hmove).config (by simp)).trans (h.config htake (by simp))
  have hidle : Idle s₂ := by
    have hs₁ : Idle s₁ := by
      intro q' bytes hq'
      by_cases heq : q' = q
      · subst heq
        exact (Option.some.inj (hemptied.reads.symm.trans hq')).symm
      · exact hothers q' bytes heq ((hemptied.others q' heq).symm.trans hq')
    exact hs₁.same ((TcpService.sendMessage_reads s₁ id _ _ answer).of_ok hsend)
  have hseen : TcpService.seen [(TcpOp.sendMessage id c.readBuffer.readable none answer, outs₂)] =
      outs₂ := List.append_nil _
  dsimp only at hrun
  rw [hseen] at hrun
  split at hrun
  · cases hrun
  by_cases haccepts : TcpService.accepts outs₂ = true
  · rw [if_pos haccepts] at hrun hechoes
    cases hrun
    rw [← List.append_assoc]
    exact ⟨hechoes, hidle, hconfig⟩
  · rw [if_neg haccepts] at hrun hechoes
    obtain ⟨⟨s₃, closing⟩, hclose, hrun⟩ := Outcome.exists_of_bind hrun
    cases hrun
    obtain ⟨hclosed, hbuffers, hgone⟩ := call_closeSocket hechoes hclose
    obtain ⟨outs₃, hstep, -⟩ := step_of_call hclose
    rw [← List.append_assoc, ← List.append_assoc]
    exact ⟨hclosed.closed (hgone q (hconnections ▸ hq)), hidle.same hbuffers.toReads,
      (hechoes.config hstep (by simp)).trans hconfig⟩

/-- Closing serves the connection that is to be closed. -/
theorem Serving.closes {e : EchoServer} (h : Serving e log)
    (hserves : ∀ q, Serves e.tcpService q e.callback → e.tcpService.connections id = some q)
    (hrun : call e.tcpService (.closeSocket id) = .ok (s', log')) :
    Echoes none (log ++ log') s' ∧ Idle s' ∧ s'.config = e.tcpService.config := by
  obtain ⟨hechoes, hbuffers, hgone⟩ := call_closeSocket h.echoes hrun
  obtain ⟨outs, hstep, -⟩ := step_of_call hrun
  refine ⟨hechoes, fun q bytes hq => ?_, h.echoes.config hstep (by simp)⟩
  rcases hbuffers.toReads.shows q bytes hq with hold | ⟨-, hnew⟩
  · refine (h.empty q bytes hold).resolve_right fun hq' => ?_
    unfold TcpService.held TcpService.shows at hq
    rw [hgone q (hserves q hq')] at hq
    cases hq
  · exact hnew

/-- When a callback is about to return, every read buffer is empty. -/
theorem Serving.onCallback {e : EchoServer} (h : Serving e log) {out : TcpOutput Empty}
    (hcb : e.callback = some out) {answer : SendAnswer}
    (hrun : EchoServer.onCallback e.tcpService answer out = .ok (s', log')) :
    Echoes none (log ++ log') s' ∧ Idle s' ∧ s'.config = e.tcpService.config := by
  cases out with
  | recvMessage q id =>
    refine onRecvMessage_echoes h.echoes (h.named q id hcb) (fun q' bytes hne hq' => ?_) hrun
    refine (h.empty q' bytes hq').resolve_right ?_
    rw [hcb]
    rintro ⟨id', -, heq | heq | ⟨errorCode, heq⟩⟩ <;> cases heq
    exact hne rfl
  | peerClose q id =>
    refine h.closes (fun q' hq' => ?_) hrun
    rw [hcb] at hq'
    obtain ⟨id', hid, heq | heq | ⟨errorCode, heq⟩⟩ := hq' <;> cases heq
    exact hid
  | error q id errorCode =>
    refine h.closes (fun q' hq' => ?_) hrun
    rw [hcb] at hq'
    obtain ⟨id', hid, heq | heq | ⟨errorCode', heq⟩⟩ := hq' <;> cases heq
    exact hid
  | _ =>
    cases hrun
    rw [List.append_nil]
    refine ⟨h.echoes, fun q' bytes hq' => (h.empty q' bytes hq').resolve_right ?_, rfl⟩
    rw [hcb]
    rintro ⟨id', -, heq | heq | ⟨errorCode, heq⟩⟩ <;> cases heq

/-! ## Events -/

theorem mem_of_invoked {o : TcpOutput Empty} (h : invoked outs = some o) : o ∈ outs :=
  List.mem_of_find?_eq_some h

/-- The receive callback is not invoked. -/
def Mute (outs : List (TcpOutput Empty)) : Prop := ∀ q id, .recvMessage q id ∉ outs

/-- A step that takes and delivers nothing. -/
theorem Echoes.serving (h : Echoes none log s) (hidle : Idle s) (hinstalled : Installed s.config)
    (hstep : s.step op = .ok (s', outs)) (hdrains : TcpService.Drains s s' outs)
    (hreads : TcpService.SameReads s s') (hmute : Mute outs)
    (htakes : s.takes op = none) (hset : ∀ setting, op ≠ .set setting) :
    Serving ⟨s', invoked outs⟩ (log ++ [(op, outs)]) where
  echoes := h.drains hstep hdrains htakes (by simp)
  installed := h.config hstep hset ▸ hinstalled
  empty q bytes hq := .inl (hidle.same hreads q bytes hq)
  named q id hq := absurd (mem_of_invoked hq) (hmute q id)

/-- A step that leaves all buffers and only notifies. -/
theorem Echoes.serving_notices (h : Echoes none log s) (hidle : Idle s)
    (hinstalled : Installed s.config) (hstep : s.step op = .ok (s', outs))
    (hbuffers : TcpService.SameBuffers s s') (houts : Notices outs) (htakes : s.takes op = none)
    (hset : ∀ setting, op ≠ .set setting) : Serving ⟨s', invoked outs⟩ (log ++ [(op, outs)]) := by
  refine h.serving hidle hinstalled hstep (hbuffers.toWrites.drains houts.handed) hbuffers.toReads
    (fun q id hmem => ?_) htakes hset
  cases houts _ hmem

/-- The loop of a read that found nothing leaves the buffer. -/
theorem recvLoop_dry {maxSize : Nat} {b b' : DynamicBuffer} {answers : List RecvAnswer} {e : RecvEnd}
    (h : recvLoop maxSize b false answers = .ok (b', false, e)) : b'.readable = b.readable := by
  obtain ⟨chunks, b₁, rest, r, hrun, hexit⟩ := exists_recvExit maxSize b answers
  obtain ⟨b'', hloop, hread⟩ := recvLoop_run hrun hexit false
  rw [hloop] at h
  cases r with
  | error fault => cases h
  | ok e' =>
    obtain ⟨rfl, hnil, -⟩ : b'' = b' ∧ (false || !chunks.isEmpty) = false ∧ e' = e := by
      simpa [Except.map] using h
    have hchunks : chunks = [] := by simpa using hnil
    rw [hread, hchunks, List.flatten_nil, List.append_nil]

/-- Behind the loop the callback is invoked that the connection waits for. -/
theorem behindLoop_invokes (hinstalled : Installed s.config) {arrived : Bool} {e : RecvEnd}
    (h : s.behindLoop q id arrived e = .ok (s', outs)) : s'.connections = s.connections ∧
      ((arrived = false ∧ outs = []) ∨ outs = [.recvMessage q id] ∨ outs = [.peerClose q id] ∨
        ∃ errorCode, outs = [.error q id errorCode]) := by
  obtain ⟨hrecv, hpeer, herror⟩ := hinstalled
  have hclose : s.onPeerClose q id = .ok (s', outs) → s'.connections = s.connections ∧
      outs = [.peerClose q id] := by
    intro h
    obtain ⟨c, -, h⟩ := Outcome.exists_of_bind h
    dsimp only at h
    rw [if_pos (show (s.setConnection q ({ · with status := .peerClosed })).config.peerCloseCb = true
      from hpeer)] at h
    cases h
    exact ⟨rfl, rfl⟩
  cases e with
  | error errno =>
    unfold TcpService.behindLoop TcpService.setErrorAndReport at h
    dsimp only at h
    rw [if_pos (show (s.setConnection q (·.setError errno)).config.errorCb = true from herror)] at h
    cases h
    exact ⟨rfl, .inr (.inr (.inr ⟨errno, rfl⟩))⟩
  | again =>
    unfold TcpService.behindLoop at h
    rw [hrecv, Bool.and_true] at h
    cases arrived with
    | false =>
      cases h
      exact ⟨rfl, .inl ⟨rfl, rfl⟩⟩
    | true =>
      cases h
      exact ⟨rfl, .inr (.inl rfl)⟩
  | peerClose =>
    unfold TcpService.behindLoop at h
    rw [if_pos hrecv] at h
    cases arrived with
    | false =>
      obtain ⟨hconnections, houts⟩ := hclose h
      exact ⟨hconnections, .inr (.inr (.inl houts))⟩
    | true =>
      cases h
      exact ⟨rfl, .inr (.inl rfl)⟩

/-- What is received waits for a callback. -/
theorem Echoes.serving_read (h : Echoes none log s) (hidle : Idle s) (hinstalled : Installed s.config)
    {p : Nat} {accepts : List AcceptAnswer} {recvs : List RecvAnswer}
    (hstep : s.step (.readable p accepts recvs) = .ok (s', outs))
    {socket : TcpSocket} (hp : s.socketObjects.cell p = some socket)
    (hrun : s.onSocketRead p recvs = .ok (s', outs)) :
    Serving ⟨s', invoked outs⟩ (log ++ [(.readable p accepts recvs, outs)]) := by
  cases hq : s.connections socket.id with
  | none =>
    unfold TcpService.onSocketRead at hrun
    rw [TcpService.socketAt_eq hp, Outcome.ok_bind, hq] at hrun
    cases hrun
    exact h.serving hidle hinstalled hstep ((TcpService.Same.refl s).drains TcpService.notices_nil.handed)
      (.refl s) (by simp [Mute]) rfl (by simp)
  | some q =>
    cases hc : s.connectionObjects.cell q with
    | none =>
      unfold TcpService.onSocketRead TcpService.socketAt TcpService.connectionAt at hrun
      simp only [hp, hq, hc, orFault, Outcome.ok_bind, Outcome.error_bind] at hrun
      cases hrun
    | some conn =>
      cases hloop : recvLoop s.config.connReadBufferMaxSize conn.readBuffer false recvs with
      | error fault =>
        rw [TcpService.onSocketRead_fault hp hq hc hloop] at hrun
        cases hrun
      | ok r =>
        obtain ⟨b, arrived, e⟩ := r
        rw [TcpService.onSocketRead_eq hp hq hc hloop] at hrun
        have hbehind : TcpService.SameBuffers (s.received q b) s' :=
          (TcpService.behindLoop_same _ q socket.id arrived e).of_ok hrun
        have hinst : Installed (s.received q b).config := hinstalled
        obtain ⟨hconnections, houts⟩ := behindLoop_invokes hinst hrun
        have hread : TcpService.SameWrites s (s.received q b) :=
          (TcpService.Same.refl s).setConnection q fun _ => rfl
        have hwrites : TcpService.SameWrites s s' := hread.trans hbehind.toWrites
        have hquiet : ∀ o ∈ outs, o.trafficOf = none := by
          rcases houts with ⟨-, rfl⟩ | rfl | rfl | ⟨errorCode, rfl⟩ <;> simp [TcpOutput.trafficOf]
        have hconfig : s'.config = s.config := h.config hstep (by simp)
        refine ⟨h.drains hstep (hwrites.drains (handed_of_quiet hquiet)) rfl (by simp),
          hconfig ▸ hinstalled, fun q' bytes hq' => ?_, fun q' id' hq' => ?_⟩
        · rcases hbehind.toReads.shows q' bytes hq' with hold | ⟨-, hnew⟩
          · rw [TcpService.received, TcpService.shows_setConnection] at hold
            by_cases heq : q' = q
            · subst heq
              rw [if_pos rfl, hc] at hold
              cases hold
              have hserves : s'.connections socket.id = some q' := by rw [hconnections]; exact hq
              rcases houts with ⟨rfl, rfl⟩ | rfl | rfl | ⟨errorCode, rfl⟩
              · exact .inl ((recvLoop_dry hloop).trans (hidle q' _ (congrArg (Option.map _) hc)))
              · exact .inr ⟨_, hserves, .inl rfl⟩
              · exact .inr ⟨_, hserves, .inr (.inl rfl)⟩
              · exact .inr ⟨_, hserves, .inr (.inr ⟨errorCode, rfl⟩)⟩
            · rw [if_neg heq] at hold
              exact .inl (hidle q' bytes hold)
          · exact .inl hnew
        · rcases houts with ⟨-, rfl⟩ | rfl | rfl | ⟨errorCode, rfl⟩ <;> cases hq'
          exact (congrFun hconnections _).trans hq

/-- A handler that leaves all buffers and only notifies. -/
theorem Echoes.serving_handler (h : Echoes none log s) (hidle : Idle s)
    (hinstalled : Installed s.config) (hstep : s.step op = .ok (s', outs))
    {r : Except TcpFault (TcpService Empty × List (TcpOutput Empty))} (hr : r = .ok (s', outs))
    (hsame : TcpService.Keep TcpService.buffers ([], []) s Prod.fst r) (hnotices : TcpService.Notifies r)
    (htakes : s.takes op = none) (hset : ∀ setting, op ≠ .set setting) :
    Serving ⟨s', invoked outs⟩ (log ++ [(op, outs)]) :=
  h.serving_notices hidle hinstalled hstep (hsame.of_ok hr) (hnotices.of_ok hr) htakes hset

theorem Echoes.readable (h : Echoes none log s) (hidle : Idle s) (hinstalled : Installed s.config)
    {p : Nat} {accepts : List AcceptAnswer} {recvs : List RecvAnswer}
    (hstep : s.step (.readable p accepts recvs) = .ok (s', outs)) :
    Serving ⟨s', invoked outs⟩ (log ++ [(.readable p accepts recvs, outs)]) := by
  have hquiet : s' = s → outs = [] →
      Serving ⟨s', invoked outs⟩ (log ++ [(.readable p accepts recvs, outs)]) := by
    rintro rfl rfl
    exact h.serving_notices hidle hinstalled hstep (.refl _) TcpService.notices_nil rfl (by simp)
  have hevent : s.onEvent (s.readable p accepts recvs) = .ok (s', outs) := hstep
  unfold TcpService.onEvent at hevent
  split at hevent
  · unfold TcpService.readable at hevent
    cases hp : s.socketObjects.cell p with
    | none =>
      rw [hp] at hevent
      cases hevent
      exact hquiet rfl rfl
    | some socket =>
      rw [hp, Option.bind_some] at hevent
      split at hevent
      · cases hevent
        exact hquiet rfl rfl
      · exact h.serving_handler hidle hinstalled hstep hevent
          (TcpService.onListenSocketRead_same s p accepts)
          (TcpService.onListenSocketRead_notifies s p accepts) rfl (by simp)
      · exact h.serving_read hidle hinstalled hstep hp hevent
  · cases hevent
    exact hquiet rfl rfl

theorem onSocketWrite_mute (s : TcpService Empty) (p : Nat) (result : SendResult) :
    Outcome.Ensures (fun _ => True) (fun r => Mute r.2) (s.onSocketWrite p result) := by
  have hnil : Mute [] := fun _ _ hmem => by cases hmem
  have hone : ∀ {o : TcpOutput Empty}, (∀ q id, o ≠ .recvMessage q id) → Mute [o] :=
    fun hne q id hmem => hne q id (List.mem_singleton.mp hmem).symm
  refine .bind_of_forall fun x => ?_
  split
  · exact hnil
  refine .bind_of_forall fun c => ?_
  split
  · intro q id hmem
    cases TcpService.setErrorAndReport_notices s _ x.id _ _ hmem
  · exact hnil
  dsimp only
  split
  · have hcomplete : ∀ s' : TcpService Empty, ∀ q cb, Outcome.Ensures (fun _ => True)
        (fun r => Mute r.2) (s'.sendComplete q x.id cb) := by
      intro s' q cb
      unfold TcpService.sendComplete
      split
      · exact hnil
      · exact hone (by simp)
      · exact .bind_of_forall fun _ => hone (by simp)
    refine (hcomplete _ _ c.sendCompleteCb).bind fun r hr q id hmem => ?_
    rcases List.mem_cons.mp hmem with heq | hmem
    · cases heq
    · exact hr q id hmem
  · exact hone (by simp)

theorem Echoes.writable (h : Echoes none log s) (hidle : Idle s) (hinstalled : Installed s.config)
    {p : Nat} {socketError : Int} {result : SendResult}
    (hstep : s.step (.writable p socketError result) = .ok (s', outs)) :
    Serving ⟨s', invoked outs⟩ (log ++ [(.writable p socketError result, outs)]) := by
  have hquiet : s' = s → outs = [] →
      Serving ⟨s', invoked outs⟩ (log ++ [(.writable p socketError result, outs)]) := by
    rintro rfl rfl
    exact h.serving_notices hidle hinstalled hstep (.refl _) TcpService.notices_nil rfl (by simp)
  have hevent : s.onEvent (s.writable p socketError result) = .ok (s', outs) := hstep
  unfold TcpService.onEvent at hevent
  split at hevent
  · unfold TcpService.writable at hevent
    split at hevent
    · cases hevent
      exact hquiet rfl rfl
    · exact h.serving_handler hidle hinstalled hstep hevent
        (TcpService.onAsyncConnectSocketWrite_same s p socketError)
        (TcpService.onAsyncConnectSocketWrite_notifies s p socketError) rfl (by simp)
    · exact h.serving hidle hinstalled hstep ((TcpService.onSocketWrite_drains s p result).of_ok hevent)
        ((TcpService.onSocketWrite_reads s p result).of_ok hevent)
        ((onSocketWrite_mute s p result).of_ok hevent) rfl (by simp)
  · cases hevent
    exact hquiet rfl rfl

theorem Echoes.error (h : Echoes none log s) (hidle : Idle s) (hinstalled : Installed s.config)
    {p : Nat} {socketError : Int} (hstep : s.step (.error p socketError) = .ok (s', outs)) :
    Serving ⟨s', invoked outs⟩ (log ++ [(.error p socketError, outs)]) := by
  refine h.serving_handler hidle hinstalled hstep hstep (TcpService.onEvent_same ?_)
    (TcpService.onEvent_notifies ?_) rfl (by simp)
  · unfold TcpService.error
    split
    · exact TcpService.Same.refl s
    · exact TcpService.onSocketError_same s p socketError
  · unfold TcpService.error
    split
    · exact TcpService.notices_nil
    · exact TcpService.onSocketError_notifies s p socketError

theorem Echoes.timeout (h : Echoes none log s) (hidle : Idle s) (hinstalled : Installed s.config)
    {now : Timestamp} (hstep : s.step (.timeout now) = .ok (s', outs)) :
    Serving ⟨s', invoked outs⟩ (log ++ [(.timeout now, outs)]) :=
  h.serving_handler hidle hinstalled hstep hstep
    (TcpService.onEvent_same (TcpService.timeout_same s now))
    (TcpService.onEvent_notifies (TcpService.timeout_notifies s now)) rfl (by simp)

theorem Echoes.callbackReturn (h : Echoes none log s) (hidle : Idle s)
    (hinstalled : Installed s.config) {accepts : List AcceptAnswer}
    (hstep : s.step (.callbackReturn accepts) = .ok (s', outs)) :
    Serving ⟨s', invoked outs⟩ (log ++ [(.callbackReturn accepts, outs)]) :=
  h.serving_handler hidle hinstalled hstep hstep (TcpService.callbackReturn_same s accepts)
    (TcpService.callbackReturn_notifies s accepts) rfl (by simp)

/-! ## Runs -/

theorem Serving.idle {e : EchoServer} (h : Serving e log) (hcb : e.callback = none) :
    Idle e.tcpService := by
  intro q bytes hq
  refine (h.empty q bytes hq).resolve_right ?_
  rw [hcb]
  rintro ⟨id, -, heq | heq | ⟨errorCode, heq⟩⟩ <;> cases heq

theorem Serving.onEvent {e e' : EchoServer} (h : Serving e log)
    (hevent : ∀ {s' outs}, Idle e.tcpService → e.tcpService.step op = .ok (s', outs) →
      Serving ⟨s', invoked outs⟩ (log ++ [(op, outs)]))
    (hrun : e.onEvent op = .ok (e', log')) : Serving e' (log ++ log') := by
  unfold EchoServer.onEvent at hrun
  cases hcb : e.callback with
  | some out =>
    rw [hcb] at hrun
    cases hrun
    rw [List.append_nil]
    exact h
  | none =>
    rw [hcb] at hrun
    obtain ⟨⟨s', handling⟩, hcall, hrun⟩ := Outcome.exists_of_bind hrun
    obtain ⟨outs, hstep, rfl⟩ := step_of_call hcall
    cases hrun
    have hseen : TcpService.seen [(op, outs)] = outs := List.append_nil _
    rw [hseen]
    exact hevent (h.idle hcb) hstep

theorem Serving.runCallback {e e' : EchoServer} (h : Serving e log) {answer : SendAnswer}
    {accepts : List AcceptAnswer} (hrun : e.runCallback answer accepts = .ok (e', log')) :
    Serving e' (log ++ log') := by
  unfold EchoServer.runCallback at hrun
  cases hcb : e.callback with
  | none =>
    rw [hcb] at hrun
    cases hrun
    rw [List.append_nil]
    exact h
  | some out =>
    rw [hcb] at hrun
    obtain ⟨⟨s₁, calls⟩, hcalls, hrun⟩ := Outcome.exists_of_bind hrun
    obtain ⟨⟨s', returning⟩, hcall, hrun⟩ := Outcome.exists_of_bind hrun
    obtain ⟨outs, hstep, rfl⟩ := step_of_call hcall
    cases hrun
    obtain ⟨hechoes, hidle, hconfig⟩ := h.onCallback hcb hcalls
    have hseen : TcpService.seen [(TcpOp.callbackReturn accepts, outs)] = outs := List.append_nil _
    rw [hseen, ← List.append_assoc]
    exact hechoes.callbackReturn hidle (hconfig ▸ h.installed) hstep

theorem Serving.step {e e' : EchoServer} (h : Serving e log) {eop : EchoOp}
    (hrun : e.step eop = .ok (e', log')) : Serving e' (log ++ log') := by
  cases eop with
  | readable p accepts recvs => exact h.onEvent (fun hidle => h.echoes.readable hidle h.installed) hrun
  | writable p socketError result =>
    exact h.onEvent (fun hidle => h.echoes.writable hidle h.installed) hrun
  | error p socketError => exact h.onEvent (fun hidle => h.echoes.error hidle h.installed) hrun
  | timeout now => exact h.onEvent (fun hidle => h.echoes.timeout hidle h.installed) hrun
  | callback answer accepts => exact h.runCallback hrun

theorem Serving.rounds {e e' : EchoServer} {rounds : List (EchoOp × EchoLog)} (h : Serving e log)
    (hrun : Transition.Run (Transition.Steps EchoServer.step) e rounds e') :
    Serving e' (log ++ rounds.flatMap Prod.snd) := by
  induction hrun generalizing log with
  | nil =>
    rw [List.flatMap_nil, List.append_nil]
    exact h
  | @cons e round e₁ rounds e' hstep _ ih =>
    rw [List.flatMap_cons, ← List.append_assoc]
    exact ih (h.step hstep)

/-- The calls that a server makes before its loop neither read nor send. -/
theorem Echoes.exec {ops : List (TcpOp Empty)} {rest : EchoLog} (h : Echoes none log s)
    (hidle : Idle s) (hops : ∀ op ∈ ops, (∃ setting, op = .set setting) ∨ ∃ socket, op = .listen socket)
    (hrun : Transition.Run TcpService.Steps s rest s') (hrest : rest.map Prod.fst = ops) :
    Echoes none (log ++ rest) s' ∧ Idle s' := by
  induction hrun generalizing log ops with
  | nil =>
    rw [List.append_nil]
    exact ⟨h, hidle⟩
  | @cons s move s₁ rest s' hstep _ ih =>
    obtain ⟨op, outs⟩ := move
    have hop : s.step op = .ok (s₁, outs) := hstep
    have hquiet : s.takes op = none ∧ TcpService.SameBuffers s s₁ ∧ Notices outs := by
      rcases hops op (by rw [← hrest]; exact List.mem_cons_self ..) with
        ⟨setting, rfl⟩ | ⟨socket, rfl⟩
      · cases hop
        exact ⟨rfl, .of_eq rfl, TcpService.notices_nil⟩
      · cases hop
        refine ⟨rfl, ?_, TcpService.notices_one rfl⟩
        cases socket with
        | none => exact .refl s
        | some socket => exact TcpService.buildListenSocket_same s socket
    obtain ⟨htakes, hbuffers, houts⟩ := hquiet
    have hnext := h.drains hop (hbuffers.toWrites.drains houts.handed) htakes (by simp)
    rw [← List.singleton_append, ← List.append_assoc]
    refine ih hnext (hidle.same hbuffers.toReads) (fun op' hmem => ?_) rfl
    exact hops op' (hrest ▸ List.mem_cons_of_mem _ hmem)

/-- The service with the callbacks of the server. -/
def constructed : TcpService Empty := { init Empty with config := construct.foldl .set .init }

theorem exec_start (socket : Option OpenAnswer) :
    Transition.exec TcpService.step (init Empty) (start socket) =
      .ok ((constructed.listen socket).1, construct.map (fun setting => (.set setting, [])) ++
        [(.listen socket, [.returnedId (constructed.listen socket).2])]) := rfl

theorem installed_listen (socket : Option OpenAnswer) :
    Installed (constructed.listen socket).1.config := by
  have hconstructed : Installed constructed.config := ⟨rfl, rfl, rfl⟩
  unfold TcpService.listen TcpService.buildListenSocket
  split
  · exact hconstructed
  · dsimp only
    split
    · exact hconstructed
    · split <;> exact hconstructed

theorem serving_start {socket : Option OpenAnswer}
    (h : Transition.exec TcpService.step (init Empty) (start socket) = .ok (s, log)) :
    Serving ⟨s, none⟩ log := by
  have hlog : log.map Prod.fst = start socket := by
    rw [exec_start] at h
    cases h
    rfl
  have hinstalled : Installed s.config := by
    rw [exec_start] at h
    cases h
    exact installed_listen socket
  obtain ⟨hechoes, hidle⟩ := echoes_init.exec (fun q bytes hq => by cases hq)
    (by simp [start, construct]) (Transition.exec_run h) hlog
  exact ⟨hechoes, hinstalled, fun q bytes hq => .inl (hidle q bytes hq), by simp⟩

/-- What an echo server has sent on a connection is a beginning of what it has received on
it, in every state; and when no callback is running, the rest is in the write buffer of the
connection, as long as there is the connection. -/
theorem run_echoes {socket : Option OpenAnswer} {ops : List EchoOp} {e : EchoServer}
    (h : EchoServer.run socket ops = .ok (e, log)) (q : Nat) :
    sent q log <+: received q log ∧ (e.callback = none →
      ∀ c, e.tcpService.connectionObjects.cell q = some c →
        received q log = sent q log ++ c.writeBuffer.readable) := by
  have hserving : Serving e log := by
    obtain ⟨⟨s, start⟩, hstart, h⟩ := Outcome.exists_of_bind h
    dsimp only at h
    split at h
    · obtain ⟨⟨e', rounds⟩, hrounds, h⟩ := Outcome.exists_of_bind h
      cases h
      exact (serving_start hstart).rounds (Transition.exec_run hrounds)
    · cases h
      exact serving_start hstart
  refine ⟨hserving.echoes.echo q, fun hcb c hc => ?_⟩
  have hread : c.readBuffer.readable = [] := hserving.idle hcb q _ (congrArg (Option.map _) hc)
  have hledger := (hserving.echoes.ledger q).held _ (congrArg (Option.map TcpService.reads) hc)
  have hheld := hserving.echoes.held q _ (by simp) (congrArg (Option.map TcpService.writes) hc)
  rw [hledger, hheld, show TcpService.reads c = [] from hread, List.append_nil]
  rfl

/-- Five bytes arrive, the kernel takes two of them back and the others wait. -/
theorem run_echoes_five : ∃ (e : EchoServer) (log : EchoLog) (c : TcpConnection Empty),
    e.tcpService.connectionObjects.cell 0 = some c ∧ sent 0 log = [1, 2] ∧
      received 0 log = [1, 2] ++ c.writeBuffer.readable := by
  obtain ⟨⟨e, log⟩, hrun, hf⟩ := Outcome.exists_of_any
    (x := EchoServer.run (some ⟨⟨3, by omega⟩, true⟩)
      [.readable 0 [.accepted ⟨⟨4, by omega⟩, true⟩] [], .callback ⟨.again, .zero, true⟩ [],
        .readable 1 [] [⟨5, .data [1, 2, 3, 4, 5]⟩], .callback ⟨.accepted 2, .zero, true⟩ []])
    (f := fun r => r.1.callback.isNone && (r.1.tcpService.connectionObjects.cell 0).isSome &&
      decide (sent 0 r.2 = [1, 2])) (by decide +kernel)
  simp only [Bool.and_eq_true, decide_eq_true_eq] at hf
  obtain ⟨⟨hcb, hc⟩, hsent⟩ := hf
  obtain ⟨c, hc⟩ := Option.isSome_iff_exists.mp hc
  have hechoes := (run_echoes hrun 0).2 (Option.isNone_iff_eq_none.mp hcb) c hc
  rw [hsent] at hechoes
  exact ⟨e, log, c, hc, hsent, hechoes⟩

end EchoServer

end Brickred
