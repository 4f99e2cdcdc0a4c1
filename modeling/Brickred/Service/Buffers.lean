import Brickred.Service.Callbacks
import Brickred.Service.Receiving

/-!
# What a step leaves in the buffers

Of all that the service does only `onSocketRead` puts bytes into a read buffer, and only the
user takes bytes out; only `sendMessage` puts bytes into a write buffer, and only
`onSocketWrite` takes bytes out. This module says so of everything else.
-/

namespace Brickred

variable {C : Type}

namespace TcpService

/-! ## What connections show -/

/-- What a connection shows, while there is the connection. -/
def shows {β : Type} (π : TcpConnection C → β) (s : TcpService C) (q : Nat) : Option β :=
  (s.connectionObjects.cell q).map π

/-- What a connection holds of the bytes it has received. -/
def reads (c : TcpConnection C) : List UInt8 := c.readBuffer.readable

/-- What a connection holds of the bytes it is to send. -/
def writes (c : TcpConnection C) : List UInt8 := c.writeBuffer.readable

/-- What a connection holds of the bytes it has received, and of those it is to send. -/
def buffers (c : TcpConnection C) : List UInt8 × List UInt8 :=
  (c.readBuffer.readable, c.writeBuffer.readable)

/-- What connections show is as it was, but for connections that are gone; new ones show
`fresh`. -/
structure Same {β : Type} (π : TcpConnection C → β) (fresh : β) (s s' : TcpService C) : Prop where
  next : s.connectionObjects.next ≤ s'.connectionObjects.next
  shows : ∀ q b, s'.shows π q = some b →
    s.shows π q = some b ∨ s.connectionObjects.next ≤ q ∧ b = fresh

/-- Read buffers are as they were. -/
abbrev SameReads (s s' : TcpService C) : Prop := Same reads [] s s'

/-- Write buffers are as they were. -/
abbrev SameWrites (s s' : TcpService C) : Prop := Same writes [] s s'

/-- All buffers are as they were. -/
abbrev SameBuffers (s s' : TcpService C) : Prop := Same buffers ([], []) s s'

/-- If a computation ends, it has left what connections show. -/
def Keep {α β : Type} (π : TcpConnection C → β) (fresh : β) (s : TcpService C)
    (f : α → TcpService C) (r : Except TcpFault α) : Prop :=
  Outcome.Ensures (fun _ => True) (fun a => Same π fresh s (f a)) r

section

variable {α α' β γ : Type} {π : TcpConnection C → β} {fresh : β} {s s₁ s' : TcpService C} {q : Nat}
  {id : SocketId} {f : α → TcpService C} {g : α' → TcpService C}

theorem Same.refl (s : TcpService C) : Same π fresh s s where
  next := Nat.le_refl _
  shows _ _ h := .inl h

theorem Same.trans (h : Same π fresh s s₁) (h' : Same π fresh s₁ s') : Same π fresh s s' where
  next := Nat.le_trans h.next h'.next
  shows q b hq := by
    rcases h'.shows q b hq with hq | ⟨hnext, hnew⟩
    · exact h.shows q b hq
    · exact .inr ⟨Nat.le_trans h.next hnext, hnew⟩

theorem Same.of_eq (h : s'.connectionObjects = s.connectionObjects) : Same π fresh s s' where
  next := Nat.le_of_eq (congrArg ObjectHeap.next h.symm)
  shows q b hq := by
    unfold TcpService.shows at hq ⊢
    rw [h] at hq
    exact .inl hq

/-- Whoever sees less of the connections sees no change either. -/
theorem Same.map (h : Same π fresh s s') (ρ : β → γ) : Same (fun c => ρ (π c)) (ρ fresh) s s' where
  next := h.next
  shows q b hq := by
    unfold TcpService.shows at hq
    obtain ⟨c, hc, rfl⟩ := Option.map_eq_some_iff.mp hq
    refine (h.shows q (π c) (by rw [TcpService.shows, hc]; rfl)).imp (fun hold => ?_) fun hnew =>
      ⟨hnew.1, congrArg ρ hnew.2⟩
    unfold TcpService.shows at hold ⊢
    obtain ⟨c₀, hc₀, hπ⟩ := Option.map_eq_some_iff.mp hold
    rw [hc₀, Option.map_some, hπ]

theorem Same.toReads (h : SameBuffers s s') : SameReads s s' := h.map Prod.fst

theorem Same.toWrites (h : SameBuffers s s') : SameWrites s s' := h.map Prod.snd

theorem shows_setConnection (π : TcpConnection C → β) (s : TcpService C) (q : Nat)
    (f : TcpConnection C → TcpConnection C) (q' : Nat) : (s.setConnection q f).shows π q' =
      if q' = q then (s.connectionObjects.cell q).map (fun c => π (f c)) else s.shows π q' := by
  unfold shows setConnection
  rw [ObjectHeap.cell_update]
  split
  next heq => rw [heq, Option.map_map]; rfl
  next => rfl

/-- Other members of a connection are written. -/
theorem Same.setConnection {f : TcpConnection C → TcpConnection C} (h : Same π fresh s s₁) (q : Nat)
    (hf : ∀ c, π (f c) = π c) : Same π fresh s (s₁.setConnection q f) := by
  refine h.trans ⟨Nat.le_refl _, fun q' b hq => .inl ?_⟩
  rw [shows_setConnection] at hq
  split at hq
  next heq =>
    simp only [hf] at hq
    exact heq ▸ hq
  next => exact hq

theorem Same.setSocket (h : Same π fresh s s₁) (p : Nat) (f : TcpSocket → TcpSocket) :
    Same π fresh s (s₁.setSocket p f) :=
  h.trans (.of_eq rfl)

theorem Same.insertConnection {c : TcpConnection C} (h : Same π fresh s s₁) (id : SocketId)
    (hc : π c = fresh) : Same π fresh s (s₁.insertConnection id c) := by
  refine h.trans ⟨Nat.le_succ _, fun q b hq => ?_⟩
  unfold TcpService.shows TcpService.insertConnection ObjectHeap.alloc at hq
  dsimp only at hq
  split at hq
  next heq =>
    cases hq
    exact .inr ⟨Nat.le_of_eq heq.symm, hc⟩
  next => exact .inl hq

theorem Keep.bind {r : Except TcpFault α} {k : α → Except TcpFault α'}
    (h : Keep π fresh s f r) (hk : ∀ a, Keep π fresh (f a) g (k a)) : Keep π fresh s g (r >>= k) :=
  Outcome.Ensures.bind h fun a ha =>
    Outcome.Ensures.mono (hk a) (fun _ hb => ha.trans hb) fun _ hf => hf

theorem Keep.ok {a : α} (h : Same π fresh s (f a)) : Keep π fresh s f (.ok a) := h

theorem Keep.after {r : Except TcpFault α} (h : Same π fresh s s₁) (hr : Keep π fresh s₁ f r) :
    Keep π fresh s f r :=
  Outcome.Ensures.mono hr (fun _ ha => h.trans ha) fun _ hf => hf

theorem Keep.toReads {r : Except TcpFault α} (h : Keep buffers ([], []) s f r) : Keep reads [] s f r :=
  Outcome.Ensures.mono h (fun _ ha => ha.toReads) fun _ hf => hf

/-! ## Timers and closing -/

theorem addSocketTimer_same (s : TcpService C) (id : SocketId) (timeoutMs : Int)
    (timerCb : TimerCallback) (now : Timestamp) :
    Keep π fresh s (fun s => s) (s.addSocketTimer id timeoutMs timerCb now) :=
  .bind_of_forall fun _ => .of_eq rfl

theorem removeSocketTimer_same (s : TcpService C) (id : SocketId) :
    Keep π fresh s (fun s => s) (s.removeSocketTimer id) := by
  unfold removeSocketTimer
  split
  · exact .refl s
  · exact .bind_of_forall fun _ => .of_eq rfl

theorem eraseConnection_same (s : TcpService C) (id : SocketId) :
    Keep π fresh s (fun s => s) (s.eraseConnection id) := by
  unfold eraseConnection
  split
  · exact .refl s
  next q _ =>
    cases hm : s.connectionObjects.free q with
    | none => trivial
    | some m =>
      obtain ⟨c, -, rfl⟩ := Option.map_eq_some_iff.mp hm
      refine ⟨Nat.le_refl _, fun q' b hq => .inl ?_⟩
      unfold shows ObjectHeap.remove at hq
      dsimp only at hq
      split at hq
      · cases hq
      · exact hq

theorem eraseSocket_same (s : TcpService C) (id : SocketId) :
    Keep π fresh s (fun s => s) (s.eraseSocket id) := by
  unfold eraseSocket
  split
  · exact .refl s
  · exact .bind_of_forall fun _ => .of_eq rfl

theorem closeSocket_same (s : TcpService C) (id : SocketId) :
    Keep π fresh s (fun s => s) (s.closeSocket id) :=
  (removeSocketTimer_same s id).bind fun s₁ => (eraseConnection_same s₁ id).bind fun s₂ =>
    (eraseSocket_same s₂ id).bind fun _ => .of_eq rfl

theorem sendComplete_same (s : TcpService C) (q : Nat) (id : SocketId)
    (cb : Option (SendCompleteCallback C)) : Keep π fresh s Prod.fst (s.sendComplete q id cb) := by
  unfold sendComplete
  split
  · exact .refl s
  · exact .of_eq rfl
  · exact (closeSocket_same s id).bind fun s₁ => Same.refl s₁

theorem takeTimer_same {timerId : Int} (ht : s.takeTimer timerId = some (s', id)) :
    Same π fresh s s' := by
  obtain ⟨-, rfl⟩ := takeTimer_eq_some ht
  exact .of_eq rfl

end

variable {s s₁ s' : TcpService C} {q : Nat} {id : SocketId}

/-! ## Building sockets -/

theorem newConnection_buffers (s : TcpService C) (status : TcpConnection.Status) :
    Outcome.Ensures (fun _ => True) (fun c => buffers c = ([], [])) (s.newConnection status) :=
  Outcome.Ensures.mono (newConnection_fresh s status)
    (fun _ hc => Prod.ext hc.2.read hc.2.write) fun _ _ => trivial

theorem buildListenSocket_same (s : TcpService C) (socket : OpenAnswer) :
    SameBuffers s (s.buildListenSocket socket).1 := by
  unfold buildListenSocket
  dsimp only
  split
  · exact .of_eq rfl
  · split <;> exact .of_eq rfl

theorem buildConnectedSocket_same (s : TcpService C) (socket : OpenAnswer) :
    Keep buffers ([], []) s Prod.fst (s.buildConnectedSocket socket) := by
  unfold buildConnectedSocket
  dsimp only
  split
  · exact .of_eq rfl
  · refine (newConnection_buffers _ .connected).bind fun c hc => ?_
    split
    · exact .of_eq rfl
    · have hgot : SameBuffers s ((s.getId socket.fd).1.insertSocket
          { fd := socket.fd, id := (s.getId socket.fd).2, readCb := some .onSocketRead
            writeCb := none }) := .of_eq rfl
      exact hgot.insertConnection _ hc

theorem buildAsyncConnectSocket_same (s : TcpService C) (socket : OpenAnswer) (timeoutMs : Int)
    (now : Timestamp) : Keep buffers ([], []) s Prod.fst (s.buildAsyncConnectSocket socket timeoutMs now) := by
  unfold buildAsyncConnectSocket
  dsimp only
  split
  · exact .of_eq rfl
  · refine (newConnection_buffers _ .connecting).bind fun c hc => ?_
    split
    · exact .of_eq rfl
    · have hinsert : ∀ s₁ : TcpService C, SameBuffers s₁ ((s₁.insertSocket
          { fd := socket.fd, id := (s.getId socket.fd).2, readCb := none
            writeCb := some .onAsyncConnectSocketWrite }).insertConnection (s.getId socket.fd).2 c) := by
        intro s₁
        have hsocket : SameBuffers s₁ (s₁.insertSocket
            { fd := socket.fd, id := (s.getId socket.fd).2, readCb := none
              writeCb := some .onAsyncConnectSocketWrite }) := .of_eq rfl
        exact hsocket.insertConnection _ hc
      have hgot : SameBuffers s (s.getId socket.fd).1 := .of_eq rfl
      split
      · exact (Keep.after hgot (addSocketTimer_same _ _ timeoutMs _ now)).bind fun s₁ =>
          .ok (hinsert s₁)
      · exact hgot.trans (hinsert _)

theorem asyncConnect_same (s : TcpService C) (answer : ConnectAnswer) (timeoutMs : Int)
    (now : Timestamp) : Keep buffers ([], []) s Prod.fst (s.asyncConnect answer timeoutMs now) := by
  cases answer with
  | failed => exact .refl s
  | completed socket => exact (buildConnectedSocket_same s socket).bind fun r => Same.refl r.1
  | inProgress socket =>
    exact (buildAsyncConnectSocket_same s socket timeoutMs now).bind fun r => Same.refl r.1

/-! ## Handlers -/

theorem setErrorAndReport_same (s : TcpService C) (q : Nat) (id : SocketId) (errorCode : Int) :
    SameBuffers s (s.setErrorAndReport q id errorCode).1 := by
  have hset : SameBuffers s (s.setConnection q (·.setError errorCode)) :=
    (Same.refl s).setConnection q fun _ => rfl
  unfold setErrorAndReport
  dsimp only
  split
  · exact hset.trans (.of_eq rfl)
  · exact hset

theorem onPeerClose_same (s : TcpService C) (q : Nat) (id : SocketId) :
    Keep buffers ([], []) s Prod.fst (s.onPeerClose q id) := by
  have hset : SameBuffers s (s.setConnection q ({ · with status := .peerClosed })) :=
    (Same.refl s).setConnection q fun _ => rfl
  unfold onPeerClose
  refine .bind_of_forall fun _ => ?_
  dsimp only
  split
  · exact hset.trans (.of_eq rfl)
  · exact hset

theorem afterRecvMessage_same (s : TcpService C) (q : Nat) (id : SocketId) :
    Keep buffers ([], []) s Prod.fst (s.afterRecvMessage q id) := by
  unfold afterRecvMessage
  split
  · exact .refl s
  · exact onPeerClose_same s q id

theorem onListenSocketRead_same (s : TcpService C) (p : Nat) (answers : List AcceptAnswer) :
    Keep buffers ([], []) s Prod.fst (onListenSocketRead p s answers) := by
  induction answers generalizing s with
  | nil => exact .bind_of_forall fun _ => .refl s
  | cons answer answers ih =>
    unfold onListenSocketRead
    refine .bind_of_forall fun x => ?_
    cases answer with
    | aborted => exact ih s
    | failed => exact .refl s
    | outOfDescriptors now =>
      dsimp only
      split
      · have hpause : SameBuffers s (s.setSocket p ({ · with readCb := none })) :=
          (Same.refl s).setSocket p _
        exact (Keep.after hpause (addSocketTimer_same _ _ _ _ now)).bind fun s₁ =>
          Keep.ok (f := Prod.fst) (a := (s₁, [])) (.refl s₁)
      · exact .refl s
    | accepted socket =>
      refine (buildConnectedSocket_same s socket).bind fun r => ?_
      dsimp only
      split
      · exact Same.refl r.1
      · split
        · exact .of_eq rfl
        · exact ih r.1

theorem onSocketError_same (s : TcpService C) (p : Nat) (socketError : Int) :
    Keep buffers ([], []) s Prod.fst (s.onSocketError p socketError) := by
  refine .bind_of_forall fun x => ?_
  split
  · exact .refl s
  · exact .bind_of_forall fun _ => setErrorAndReport_same s _ x.id socketError

theorem onAsyncConnectSocketWrite_same (s : TcpService C) (p : Nat) (socketError : Int) :
    Keep buffers ([], []) s Prod.fst (s.onAsyncConnectSocketWrite p socketError) := by
  refine .bind_of_forall fun x => (removeSocketTimer_same s x.id).bind fun s₁ => ?_
  split
  · exact .refl s₁
  next q _ =>
    refine .bind_of_forall fun _ => ?_
    split
    · exact setErrorAndReport_same s₁ q x.id socketError
    · have hset : SameBuffers s₁ ((s₁.setSocket p
          ({ · with readCb := some .onSocketRead, writeCb := none })).setConnection q
            ({ · with status := .connected })) :=
        ((Same.refl s₁).setSocket p _).setConnection q fun _ => rfl
      dsimp only
      split
      · exact hset.trans (.of_eq rfl)
      · exact hset

theorem timeout_same (s : TcpService C) (now : Timestamp) :
    Keep buffers ([], []) s Prod.fst (s.timeout now) := by
  refine .bind_of_forall fun r => ?_
  have hheap : SameBuffers s ({ s with timerHeap := r.1 } : TcpService C) := .of_eq rfl
  dsimp only
  split
  · exact hheap
  · refine Keep.after hheap ?_
    split
    · unfold onListenSocketResumeRead
      split
      · exact .refl _
      next ht =>
        refine Keep.after (takeTimer_same ht) ?_
        split
        · exact .refl _
        · exact .bind_of_forall fun _ => .of_eq rfl
    · unfold onAsyncConnectTimeout
      split
      · exact .refl _
      next ht =>
        refine Keep.after (takeTimer_same ht) ?_
        split
        · exact .bind_of_forall fun x => .bind_of_forall fun _ => setErrorAndReport_same _ _ x.id _
        · exact .refl _
    · unfold onSendMessageError
      split
      · exact .refl _
      next ht =>
        refine Keep.after (takeTimer_same ht) ?_
        split
        · refine .bind_of_forall fun x => .bind_of_forall fun c => ?_
          split <;> exact .of_eq rfl
        · exact .refl _
    · exact .of_eq rfl

/-- Behind the loop no handler reads. -/
theorem behindLoop_same (s : TcpService C) (q : Nat) (id : SocketId) (arrived : Bool) (e : RecvEnd) :
    Keep buffers ([], []) s Prod.fst (s.behindLoop q id arrived e) := by
  unfold behindLoop
  split
  · exact setErrorAndReport_same s q id _
  · split
    · exact Same.of_eq rfl
    · exact Same.refl s
  · split
    · split
      · exact Same.of_eq rfl
      · exact onPeerClose_same s q id
    · exact onPeerClose_same s q id

theorem resume_same (s : TcpService C) (accepts : List AcceptAnswer) (frame : TcpFrame) :
    Keep buffers ([], []) s Prod.fst (s.resume accepts frame) := by
  cases frame with
  | finish => exact Same.refl s
  | onListenSocketRead p => exact onListenSocketRead_same s p accepts
  | onSocketRead q id => exact afterRecvMessage_same s q id

/-- A callback returns. -/
theorem callbackReturn_same (s : TcpService C) (accepts : List AcceptAnswer) :
    Keep buffers ([], []) s Prod.fst (s.step (.callbackReturn accepts)) := by
  unfold step
  dsimp only
  split
  · exact Same.refl s
  next frame frames _ =>
    have hpop : SameBuffers s ({ s with frames } : TcpService C) := .of_eq rfl
    exact Keep.after hpop (resume_same _ accepts frame)

/-- An event that finds a handler waiting does nothing. -/
theorem onEvent_same {β : Type} {π : TcpConnection C → β} {fresh : β}
    {r : Except TcpFault (TcpService C × List (TcpOutput C))}
    (hr : Keep π fresh s Prod.fst r) : Keep π fresh s Prod.fst (s.onEvent r) := by
  unfold onEvent
  split
  · exact hr
  · exact Same.refl s

end TcpService

end Brickred
