import Brickred.Service.Steps

/-!
# Who has control

A call or a handler invokes at most one callback and stops there. When it does, the
object that the handler goes on with is there (`Live`); what the callback does to it is
another matter. The counter of the ids is followed in the same walk through the code,
since nothing but the building of sockets writes to either.
-/

namespace Brickred

variable {C : Type}

/-- A handler whose callback returned now would find its object. -/
def TcpFrame.Live (s : TcpService C) : TcpFrame → Prop
  | .onListenSocketRead p => s.socketObjects.cell p ≠ none
  | .onSocketRead q id => s.connections id = some q
  | .finish => True

namespace TcpService

/-- `SocketIdAllocator::getId` on the counter. -/
def nextValue (value : Nat) : Nat := if value = 2 ^ 31 - 1 then 1 else value + 1

/-- The counter of the ids has a value, and these handlers wait. -/
def Rests (v : Nat) (frames : List TcpFrame) (s : TcpService C) : Prop :=
  s.socketIdAllocator = v ∧ s.frames = frames

/-- These handlers wait, or one more, whose callback has just been invoked. -/
def Called (v : Nat) (frames : List TcpFrame) (s : TcpService C) : Prop :=
  s.socketIdAllocator = v ∧
    (s.frames = frames ∨ ∃ frame, s.frames = frame :: frames ∧ frame.Live s)

/-- If a computation ends, the counter has a value and these handlers wait. -/
def Keeps {α : Type} (v : Nat) (frames : List TcpFrame) (f : α → TcpService C)
    (r : Except TcpFault α) : Prop :=
  Outcome.Ensures (fun _ => True) (fun a => Rests v frames (f a)) r

/-- If a computation ends, it may have invoked a callback. -/
def Calls {α : Type} (v : Nat) (frames : List TcpFrame) (f : α → TcpService C)
    (r : Except TcpFault α) : Prop :=
  Outcome.Ensures (fun _ => True) (fun a => Called v frames (f a)) r

variable {α β : Type} {s s' : TcpService C} {v v' p q : Nat} {id : SocketId}
  {frames frames' : List TcpFrame} {f : α → TcpService C} {g : β → TcpService C}
  {cb : Option (SendCompleteCallback C)}

theorem Rests.called (h : Rests v frames s) : Called v frames s := ⟨h.1, .inl h.2⟩

/-- A callback behind which nothing is left to do. -/
theorem Rests.finish (h : Rests v frames s) : Called v frames (s.invoke .finish) :=
  ⟨h.1, .inr ⟨.finish, congrArg _ h.2, trivial⟩⟩

theorem Keeps.bind {r : Except TcpFault α} {k : α → Except TcpFault β} (h : Keeps v frames f r)
    (hk : ∀ a, Rests v frames (f a) → Keeps v' frames' g (k a)) : Keeps v' frames' g (r >>= k) :=
  Outcome.Ensures.bind h hk

theorem Keeps.bind_calls {r : Except TcpFault α} {k : α → Except TcpFault β}
    (h : Keeps v frames f r) (hk : ∀ a, Rests v frames (f a) → Calls v' frames' g (k a)) :
    Calls v' frames' g (r >>= k) :=
  Outcome.Ensures.bind h hk

theorem Calls.bind {r : Except TcpFault α} {k : α → Except TcpFault β} (h : Calls v frames f r)
    (hk : ∀ a, Called v frames (f a) → Calls v' frames' g (k a)) : Calls v' frames' g (r >>= k) :=
  Outcome.Ensures.bind h hk

theorem Keeps.calls {r : Except TcpFault α} (h : Keeps v frames f r) : Calls v frames f r :=
  Outcome.Ensures.mono h (fun _ ha => ha.called) fun _ hf => hf

/-! ## Calls that leave the counter as it is -/

section

variable (h : Rests v frames s)
include h

theorem addSocketTimer_keeps (id : SocketId) (timeoutMs : Int) (timerCb : TimerCallback)
    (now : Timestamp) :
    Keeps v frames (fun s => s) (s.addSocketTimer id timeoutMs timerCb now) :=
  .bind_of_forall fun _ => h

theorem removeSocketTimer_keeps (id : SocketId) :
    Keeps v frames (fun s => s) (s.removeSocketTimer id) := by
  unfold removeSocketTimer
  split
  · exact h
  · exact .bind_of_forall fun _ => h

theorem eraseConnection_keeps (id : SocketId) :
    Keeps v frames (fun s => s) (s.eraseConnection id) := by
  unfold eraseConnection
  split
  · exact h
  · exact .bind_of_forall fun _ => h

theorem eraseSocket_keeps (id : SocketId) : Keeps v frames (fun s => s) (s.eraseSocket id) := by
  unfold eraseSocket
  split
  · exact h
  · exact .bind_of_forall fun _ => h

theorem closeSocket_keeps (id : SocketId) : Keeps v frames (fun s => s) (s.closeSocket id) :=
  (removeSocketTimer_keeps h id).bind fun _ h₁ =>
    (eraseConnection_keeps h₁ id).bind fun _ h₂ =>
      (eraseSocket_keeps h₂ id).bind fun _ h₃ => h₃

theorem sendComplete_calls (q : Nat) (id : SocketId) (cb : Option (SendCompleteCallback C)) :
    Calls v frames Prod.fst (s.sendComplete q id cb) := by
  unfold sendComplete
  split
  · exact h.called
  · exact h.finish
  · exact (closeSocket_keeps h id).bind_calls fun _ h' => h'.called

/-- A `sendMessage` calls nobody back but through its completion callback. -/
theorem sendMessageOn_ends {post : TcpService C → Prop} (hpost : ∀ {s'}, Rests v frames s' → post s')
    (q : Nat) (message : List UInt8) (cb : Option (SendCompleteCallback C)) (answer : SendAnswer)
    (hsend : ∀ id, Outcome.Ensures (fun _ => True) (fun r => post r.1) (s.sendComplete q id cb)) :
    Outcome.Ensures (fun _ => True) (fun r => post r.1) (s.sendMessageOn q message cb answer) := by
  cases hc : s.connectionObjects.cell q with
  | none =>
    have hat : s.connectionAt q = .error .dangling := by
      unfold connectionAt
      rw [hc]
      rfl
    unfold sendMessageOn
    rw [hat]
    trivial
  | some c =>
    refine sendMessageOn_rule hc message cb answer (hpost h) (fun id errno => ?_) (fun data => ?_)
      fun id => Outcome.Ensures.mono (hsend id) (fun _ hs _ => hs) fun _ hf => hf
    · have h' : Rests v frames (s.setConnection q (·.setError errno)) := h
      exact Outcome.Ensures.mono (addSocketTimer_keeps h' id 0 _ answer.now)
        (fun _ hs => ⟨hpost hs, fun _ => hpost hs⟩) fun _ hf => hf
    · rcases queueMessage_spec (s := s) (q := q) c data cb answer.allocated with
        ⟨e₁, -⟩ | e₁ | ⟨writeBuffer, -, -, e₁⟩ <;> rw [e₁]
      · exact ⟨hpost h, fun _ => hpost h⟩
      · trivial
      · exact ⟨hpost h, fun _ _ _ => hpost h⟩

theorem sendMessage_calls (id : SocketId) (message : List UInt8)
    (cb : Option (SendCompleteCallback C)) (answer : SendAnswer) :
    Calls v frames Prod.fst (s.sendMessage id message cb answer) := by
  unfold sendMessage
  split
  · exact h.called
  · exact sendMessageOn_ends h Rests.called _ message cb answer fun id =>
      sendComplete_calls h _ id cb

theorem broadcastMessage_keeps (buffer : List UInt8) (answers : List (SocketId × SendAnswer)) :
    Keeps v frames Prod.fst (broadcastMessage buffer s answers) := by
  induction answers generalizing s with
  | nil => exact h
  | cons turn rest ih =>
    obtain ⟨id, answer⟩ := turn
    unfold broadcastMessage
    split
    · exact ih h
    next q _ =>
      have hsent : Keeps v frames Prod.fst (s.sendMessageOn q buffer none answer) :=
        sendMessageOn_ends h (fun h' => h') q buffer none answer fun _ => h
      refine hsent.bind fun r hr => ?_
      dsimp only
      split
      · exact hr
      · exact (ih hr).bind fun _ h' => h'

theorem setErrorAndReport_called (q : Nat) (id : SocketId) (errorCode : Int) :
    Called v frames (s.setErrorAndReport q id errorCode).1 := by
  unfold setErrorAndReport
  dsimp only
  split
  · exact h.finish
  · exact h.called

theorem onPeerClose_calls (q : Nat) (id : SocketId) :
    Calls v frames Prod.fst (s.onPeerClose q id) := by
  unfold onPeerClose
  refine .bind_of_forall fun _ => ?_
  dsimp only
  split
  · exact h.finish
  · exact h.called

theorem afterRecvMessage_calls (q : Nat) (id : SocketId) :
    Calls v frames Prod.fst (s.afterRecvMessage q id) := by
  unfold afterRecvMessage
  split
  · exact h.called
  · exact onPeerClose_calls h q id

theorem onSocketRead_calls (p : Nat) (answers : List RecvAnswer) :
    Calls v frames Prod.fst (s.onSocketRead p answers) := by
  refine .bind_of_forall fun x => ?_
  dsimp only
  split
  · exact h.called
  next q hq =>
    refine .bind_of_forall fun c => .bind_of_forall fun r => ?_
    obtain ⟨readBuffer, dataArrive, recvEnd⟩ := r
    have h' : Rests v frames (s.setConnection q ({ · with readBuffer })) := h
    cases recvEnd with
    | error errno => exact setErrorAndReport_called h' q x.id errno
    | again =>
      dsimp only
      split
      · exact h'.finish
      · exact h'.called
    | peerClose =>
      dsimp only
      split
      · split
        · exact ⟨h.1, .inr ⟨.onSocketRead q x.id, congrArg _ h.2, hq⟩⟩
        · exact afterRecvMessage_calls h' q x.id
      · exact onPeerClose_calls h' q x.id

theorem onSocketWrite_calls (p : Nat) (result : SendResult) :
    Calls v frames Prod.fst (s.onSocketWrite p result) := by
  refine .bind_of_forall fun x => ?_
  dsimp only
  split
  · exact h.called
  · refine .bind_of_forall fun c => ?_
    split
    · exact setErrorAndReport_called h _ x.id _
    · exact h.called
    · split
      · exact (sendComplete_calls (v := v) (by exact h) _ x.id _).bind fun r hr => hr
      · exact h.called

theorem onSocketError_calls (p : Nat) (socketError : Int) :
    Calls v frames Prod.fst (s.onSocketError p socketError) := by
  refine .bind_of_forall fun x => ?_
  split
  · exact h.called
  · exact .bind_of_forall fun _ => setErrorAndReport_called h _ x.id socketError

theorem onAsyncConnectSocketWrite_calls (p : Nat) (socketError : Int) :
    Calls v frames Prod.fst (s.onAsyncConnectSocketWrite p socketError) := by
  refine .bind_of_forall fun x => (removeSocketTimer_keeps h x.id).bind_calls fun s₁ h₁ => ?_
  split
  · exact h₁.called
  · refine .bind_of_forall fun _ => ?_
    split
    · exact setErrorAndReport_called h₁ _ x.id socketError
    · dsimp only
      split
      · exact Rests.finish h₁
      · exact Rests.called h₁

theorem takeTimer_rests {timerId : Int} (ht : s.takeTimer timerId = some (s', id)) :
    Rests v frames s' := by
  obtain ⟨-, rfl⟩ := takeTimer_eq_some ht
  exact h

theorem onListenSocketResumeRead_keeps (timerId : Int) :
    Keeps v frames Prod.fst (s.onListenSocketResumeRead timerId) := by
  unfold onListenSocketResumeRead
  split
  · exact h
  next ht =>
    have h' := takeTimer_rests h ht
    split
    · exact h'
    · exact .bind_of_forall fun _ => h'

theorem onAsyncConnectTimeout_calls (timerId : Int) :
    Calls v frames Prod.fst (s.onAsyncConnectTimeout timerId) := by
  unfold onAsyncConnectTimeout
  split
  · exact h.called
  next ht =>
    have h' := takeTimer_rests h ht
    split
    · exact .bind_of_forall fun x => .bind_of_forall fun _ =>
        setErrorAndReport_called h' _ x.id ETIMEDOUT
    · exact h'.called

theorem onSendMessageError_calls (timerId : Int) :
    Calls v frames Prod.fst (s.onSendMessageError timerId) := by
  unfold onSendMessageError
  split
  · exact h.called
  next ht =>
    have h' := takeTimer_rests h ht
    split
    · refine .bind_of_forall fun x => .bind_of_forall fun c => ?_
      split
      · exact h'.finish
      · exact h'.called
    · exact h'.called

theorem timeout_calls (now : Timestamp) : Calls v frames Prod.fst (s.timeout now) := by
  refine .bind_of_forall fun r => ?_
  have h' : Rests v frames ({ s with timerHeap := r.1 } : TcpService C) := h
  dsimp only
  split
  · exact h'.called
  · split
    · exact (onListenSocketResumeRead_keeps h' _).calls
    · exact onAsyncConnectTimeout_calls h' _
    · exact onSendMessageError_calls h' _
    · exact h'.finish

end

/-! ## Calls that build sockets -/

section

variable (h : Rests v frames s)
include h

theorem getId_rests (fd : Descriptor) : Rests (nextValue v) frames (s.getId fd).1 :=
  ⟨congrArg nextValue h.1, h.2⟩

theorem buildListenSocket_rests (socket : OpenAnswer) :
    Rests (nextValue v) frames (s.buildListenSocket socket).1 := by
  have h' := getId_rests h socket.fd
  unfold buildListenSocket
  dsimp only
  split
  · exact h'
  · split <;> exact h'

/-- The sockets that were there are still there. -/
theorem buildConnectedSocket_keeps (socket : OpenAnswer) :
    Outcome.Ensures (fun _ => True) (fun r => Rests (nextValue v) frames r.1 ∧
        ∀ p, s.socketObjects.cell p ≠ none → r.1.socketObjects.cell p ≠ none)
      (s.buildConnectedSocket socket) := by
  have h' := getId_rests h socket.fd
  unfold buildConnectedSocket
  dsimp only
  split
  · exact ⟨h', fun p hp => hp⟩
  · refine .bind_of_forall fun c => ?_
    split
    · exact ⟨h', fun p hp => hp⟩
    · refine ⟨h', fun p hp => ?_⟩
      obtain ⟨x, hx⟩ := Option.ne_none_iff_exists'.mp hp
      exact ne_of_eq_of_ne (cell_insertSocket (s := (s.getId socket.fd).1) hx) (by simp)

theorem buildAsyncConnectSocket_keeps (socket : OpenAnswer) (timeoutMs : Int) (now : Timestamp) :
    Keeps (nextValue v) frames Prod.fst (s.buildAsyncConnectSocket socket timeoutMs now) := by
  have h' := getId_rests h socket.fd
  unfold buildAsyncConnectSocket
  dsimp only
  split
  · exact h'
  · refine .bind_of_forall fun c => ?_
    split
    · exact h'
    · split
      · exact (addSocketTimer_keeps h' _ timeoutMs _ now).bind fun s₁ h₁ => h₁
      · exact h'

theorem asyncConnect_keeps (answer : ConnectAnswer) (timeoutMs : Int) (now : Timestamp) :
    Keeps (nextValue^[(s.builds (.asyncConnect answer timeoutMs now)).length] v) frames Prod.fst
      (s.asyncConnect answer timeoutMs now) := by
  cases answer with
  | failed => exact h
  | completed socket => exact (buildConnectedSocket_keeps h socket).bind fun r hr => hr.1
  | inProgress socket =>
    exact (buildAsyncConnectSocket_keeps h socket timeoutMs now).bind fun r hr => hr

/-- The accept loop finds its socket behind the callback if that leaves it alone. -/
theorem onListenSocketRead_calls (p : Nat) (answers : List AcceptAnswer) :
    Calls (nextValue^[(acceptBuilds s answers).length] v) frames Prod.fst
      (onListenSocketRead p s answers) := by
  induction answers generalizing s v with
  | nil => exact .bind_of_forall fun _ => h.called
  | cons answer answers ih =>
    unfold onListenSocketRead
    cases hx : s.socketObjects.cell p with
    | none =>
      have hat : s.socketAt p = .error .dangling := by
        unfold socketAt
        rw [hx]
        rfl
      rw [hat]
      trivial
    | some x =>
    rw [socketAt_eq hx, Outcome.ok_bind]
    cases answer with
    | aborted => exact ih h
    | failed => exact h.called
    | outOfDescriptors now =>
      dsimp only
      split
      · exact (addSocketTimer_keeps (v := v) (by exact h) _ _ _ now).bind_calls fun s₁ h₁ =>
          h₁.called
      · exact h.called
    | accepted socket =>
      unfold acceptBuilds
      have hb := buildConnectedSocket_keeps h socket
      dsimp only
      cases hr : s.buildConnectedSocket socket with
      | error f => trivial
      | ok r =>
        obtain ⟨h₁, hold⟩ := hb.of_ok hr
        rw [Outcome.ok_bind]
        dsimp only
        by_cases hfail : r.2 = -1
        · rw [if_pos hfail, if_pos (.inl hfail)]
          exact h₁.called
        · rw [if_neg hfail]
          by_cases hcb : r.1.config.newConnCb = true
          · rw [if_pos hcb, if_pos (.inr hcb)]
            have hlive : r.1.socketObjects.cell p ≠ none := hold p (by rw [hx]; simp)
            exact ⟨h₁.1, .inr ⟨.onListenSocketRead p, congrArg _ h₁.2, hlive⟩⟩
          · rw [if_neg hcb, if_neg (not_or.mpr ⟨hfail, hcb⟩)]
            exact ih h₁

end

/-! ## Steps -/

/-- The handlers that wait during a step. -/
def waiting (s : TcpService C) : TcpOp C → List TcpFrame
  | .callbackReturn _ => s.frames.tail
  | _ => s.frames

/-- An event that is handed out only when no handler waits. -/
theorem onEvent_calls {l : Nat} {r : Except TcpFault (TcpService C × List (TcpOutput C))}
    (hbusy : s.frames ≠ [] → l = 0)
    (hr : s.frames = [] → Calls (nextValue^[l] s.socketIdAllocator) s.frames Prod.fst r) :
    Calls (nextValue^[l] s.socketIdAllocator) s.frames Prod.fst (s.onEvent r) := by
  unfold onEvent
  split
  next hframes => exact hr hframes
  next hframes =>
    rw [hbusy (by rw [hframes]; simp)]
    exact ⟨rfl, .inl rfl⟩

/-- A step moves the counter on once for each socket it builds. The handlers that wait
behind it are those that waited during it, and at most one more. -/
theorem step_calls (s : TcpService C) (op : TcpOp C) :
    Calls (nextValue^[(s.builds op).length] s.socketIdAllocator) (s.waiting op) Prod.fst
      (s.step op) := by
  have h : Rests s.socketIdAllocator s.frames s := ⟨rfl, rfl⟩
  cases op with
  | set setting => exact h.called
  | listen socket =>
    cases socket with
    | none => exact h.called
    | some socket => exact (buildListenSocket_rests h socket).called
  | connect socket =>
    cases socket with
    | none => exact h.called
    | some socket => exact (buildConnectedSocket_keeps h socket).bind fun _ hr => hr.1.called
  | asyncConnect answer timeoutMs now =>
    exact (asyncConnect_keeps h answer timeoutMs now).bind_calls fun r hr => hr.called
  | sendMessage id buffer cb answer => exact sendMessage_calls h id buffer _ answer
  | sendMessageThenClose id buffer answer => exact sendMessage_calls h id buffer _ answer
  | broadcastMessage buffer answers => exact (broadcastMessage_keeps h buffer answers).calls
  | closeSocket id => exact (closeSocket_keeps h id).bind_calls fun _ h' => h'.called
  | setContext id context =>
    unfold step setContext
    dsimp only
    split <;> exact h.called
  | consume id size =>
    unfold step consume
    dsimp only
    split <;> exact h.called
  | startTimer timeoutMs callTimes now => exact .bind_of_forall fun _ => h.called
  | stopTimer timerId =>
    have hstop : Keeps s.socketIdAllocator s.frames (fun s => s) (s.stopTimer timerId) := by
      unfold stopTimer
      split
      · exact .bind_of_forall fun _ => h
      · exact h
    exact hstop.bind_calls fun _ h' => h'.called
  | callbackReturn accepts =>
    unfold step builds waiting
    dsimp only
    cases hframes : s.frames with
    | nil => exact ⟨rfl, .inl hframes⟩
    | cons frame frames =>
      have h' : Rests s.socketIdAllocator frames ({ s with frames } : TcpService C) := ⟨rfl, rfl⟩
      cases frame with
      | finish => exact h'.called
      | onListenSocketRead p => exact onListenSocketRead_calls h' p accepts
      | onSocketRead q id => exact afterRecvMessage_calls h' q id
  | readable p accepts recvs =>
    refine onEvent_calls (fun hne => ?_) fun hframes => ?_
    · unfold builds
      dsimp only
      split
      next hframes _ => exact absurd hframes hne
      · rfl
    · unfold builds readable
      dsimp only
      rw [hframes]
      rw [hframes] at h
      cases (s.socketObjects.cell p).bind TcpSocket.readCb with
      | none => exact h.called
      | some cb =>
        cases cb with
        | onListenSocketRead => exact onListenSocketRead_calls h p accepts
        | onSocketRead => exact onSocketRead_calls h p recvs
  | writable p socketError result =>
    refine onEvent_calls (fun _ => rfl) fun _ => ?_
    unfold writable
    split
    · exact h.called
    · exact onAsyncConnectSocketWrite_calls h p socketError
    · exact onSocketWrite_calls h p result
  | error p socketError =>
    refine onEvent_calls (fun _ => rfl) fun _ => ?_
    unfold error
    split
    · exact h.called
    · exact onSocketError_calls h p socketError
  | timeout now => exact onEvent_calls (fun _ => rfl) fun _ => timeout_calls h now

end TcpService

end Brickred
