import Brickred.Service.Messages
import Brickred.Service.ReadBuffers

/-!
# What becomes of the bytes that are to be sent

An event puts nothing into a write buffer: what it takes out the kernel has taken
(`Drains`). A `sendMessage` appends its message to what a connection has handed over and
holds, or hands over a beginning of it and says that it has failed.
-/

namespace Brickred

variable {C : Type}

/-- Something that is told the user and neither sends nor delivers bytes. -/
def TcpOutput.isNotice : TcpOutput C → Bool
  | .newConnection _ _ _ | .peerClose _ _ | .error _ _ _ | .timer _ | .returnedId _ => true
  | _ => false

theorem TcpOutput.trafficOf_notice {o : TcpOutput C} (h : o.isNotice = true) : o.trafficOf = none := by
  cases o <;> first | rfl | cases h

theorem handed_of_quiet {outs : List (TcpOutput C)} (h : ∀ o ∈ outs, o.trafficOf = none) (q : Nat) :
    handed (traffic q outs) = [] := by
  rw [traffic_eq_nil, handed_nil]
  intro o ho hq
  rw [h o ho] at hq
  cases hq

namespace TcpService

variable {s s₁ s' : TcpService C} {q : Nat} {id : SocketId} {outs : List (TcpOutput C)}

/-- All that is told are notices. -/
def Notices (outs : List (TcpOutput C)) : Prop := ∀ o ∈ outs, o.isNotice = true

/-- If a computation ends, all that it has told are notices. -/
def Notifies (r : Except TcpFault (TcpService C × List (TcpOutput C))) : Prop :=
  Outcome.Ensures (fun _ => True) (fun r => Notices r.2) r

theorem notices_nil : Notices ([] : List (TcpOutput C)) := by
  intro o ho
  cases ho

theorem notices_one {o : TcpOutput C} (h : o.isNotice = true) : Notices [o] := by
  intro o' ho
  obtain rfl := List.mem_singleton.mp ho
  exact h

/-! ## Handlers that only tell -/

theorem setErrorAndReport_notices (s : TcpService C) (q : Nat) (id : SocketId) (errorCode : Int) :
    Notices (s.setErrorAndReport q id errorCode).2 := by
  unfold setErrorAndReport
  dsimp only
  split
  · exact notices_one rfl
  · exact notices_nil

theorem onPeerClose_notifies (s : TcpService C) (q : Nat) (id : SocketId) :
    Notifies (s.onPeerClose q id) := by
  unfold onPeerClose
  refine .bind_of_forall fun _ => ?_
  dsimp only
  split
  · exact notices_one rfl
  · exact notices_nil

theorem onListenSocketRead_notifies (s : TcpService C) (p : Nat) (answers : List AcceptAnswer) :
    Notifies (onListenSocketRead p s answers) := by
  induction answers generalizing s with
  | nil => exact .bind_of_forall fun _ => notices_nil
  | cons answer answers ih =>
    unfold onListenSocketRead
    refine .bind_of_forall fun x => ?_
    cases answer with
    | aborted => exact ih s
    | failed => exact notices_nil
    | outOfDescriptors now =>
      dsimp only
      split
      · exact .bind_of_forall fun _ => notices_nil
      · exact notices_nil
    | accepted socket =>
      refine .bind_of_forall fun r => ?_
      dsimp only
      split
      · exact notices_nil
      · split
        · exact notices_one rfl
        · exact ih r.1

theorem resume_notifies (s : TcpService C) (accepts : List AcceptAnswer) (frame : TcpFrame) :
    Notifies (s.resume accepts frame) := by
  cases frame with
  | finish => exact notices_nil
  | onListenSocketRead p => exact onListenSocketRead_notifies s p accepts
  | onSocketRead q id =>
    show Notifies (s.afterRecvMessage q id)
    unfold afterRecvMessage
    split
    · exact notices_nil
    · exact onPeerClose_notifies s q id

theorem callbackReturn_notifies (s : TcpService C) (accepts : List AcceptAnswer) :
    Notifies (s.step (.callbackReturn accepts)) := by
  unfold step
  dsimp only
  split
  · exact notices_nil
  · exact resume_notifies _ accepts _

theorem onSocketError_notifies (s : TcpService C) (p : Nat) (socketError : Int) :
    Notifies (s.onSocketError p socketError) := by
  refine .bind_of_forall fun x => ?_
  split
  · exact notices_nil
  · exact .bind_of_forall fun _ => setErrorAndReport_notices s _ x.id socketError

theorem onAsyncConnectSocketWrite_notifies (s : TcpService C) (p : Nat) (socketError : Int) :
    Notifies (s.onAsyncConnectSocketWrite p socketError) := by
  refine .bind_of_forall fun x => .bind_of_forall fun s₁ => ?_
  split
  · exact notices_nil
  · refine .bind_of_forall fun _ => ?_
    split
    · exact setErrorAndReport_notices s₁ _ x.id socketError
    · dsimp only
      split
      · exact notices_one rfl
      · exact notices_nil

theorem timeout_notifies (s : TcpService C) (now : Timestamp) : Notifies (s.timeout now) := by
  refine .bind_of_forall fun r => ?_
  dsimp only
  split
  · exact notices_nil
  · split
    · unfold onListenSocketResumeRead
      split
      · exact notices_nil
      · split
        · exact notices_nil
        · exact .bind_of_forall fun _ => notices_nil
    · unfold onAsyncConnectTimeout
      split
      · exact notices_nil
      · split
        · exact .bind_of_forall fun x => .bind_of_forall fun _ =>
            setErrorAndReport_notices _ _ x.id _
        · exact notices_nil
    · unfold onSendMessageError
      split
      · exact notices_nil
      · split
        · refine .bind_of_forall fun x => .bind_of_forall fun c => ?_
          split
          · exact notices_one rfl
          · exact notices_nil
        · exact notices_nil
    · exact notices_one rfl

theorem onEvent_notifies {r : Except TcpFault (TcpService C × List (TcpOutput C))}
    (h : Notifies r) : Notifies (s.onEvent r) := by
  unfold onEvent
  split
  · exact h
  · exact notices_nil

/-! ## Write buffers -/

/-- What is in write buffers is what was there and the kernel has not taken. -/
structure Drains (s s' : TcpService C) (outs : List (TcpOutput C)) : Prop where
  next : s.connectionObjects.next ≤ s'.connectionObjects.next
  shows : ∀ q bytes, s'.shows writes q = some bytes →
    s.shows writes q = some (handed (traffic q outs) ++ bytes) ∨
      s.connectionObjects.next ≤ q ∧ bytes = []
  taken : ∀ q, handed (traffic q outs) <+: (s.shows writes q).getD []

theorem Notices.handed (h : Notices outs) (q : Nat) : Brickred.handed (traffic q outs) = [] :=
  handed_of_quiet (fun o ho => TcpOutput.trafficOf_notice (h o ho)) q

theorem Same.drains (h : SameWrites s s') (houts : ∀ q, handed (traffic q outs) = []) :
    Drains s s' outs where
  next := h.next
  shows q bytes hq := by
    rw [houts]
    exact h.shows q bytes hq
  taken q := by
    rw [houts]
    exact List.nil_prefix

/-- What follows sends nothing. -/
theorem Drains.trans {outs' : List (TcpOutput C)} (h : Drains s s₁ outs) (hsame : SameWrites s₁ s')
    (houts' : ∀ q, handed (traffic q outs') = []) : Drains s s' (outs ++ outs') where
  next := h.next.trans hsame.next
  shows q bytes hq := by
    rw [traffic_append, handed_append, houts', List.append_nil]
    rcases hsame.shows q bytes hq with hq | ⟨hnext, hnew⟩
    · exact h.shows q bytes hq
    · exact .inr ⟨h.next.trans hnext, hnew⟩
  taken q := by
    rw [traffic_append, handed_append, houts', List.append_nil]
    exact h.taken q

theorem handed_traffic_written (q q' : Nat) (bytes : List UInt8) :
    handed (traffic q' [.written q bytes] : List (TcpOutput C)) = if q' = q then bytes else [] := by
  rw [traffic_cons]
  by_cases heq : q' = q
  · subst heq
    rw [if_pos (by rfl), if_pos rfl]
    exact List.append_nil bytes
  · have hne : (TcpOutput.written q bytes : TcpOutput C).trafficOf ≠ some q' :=
      fun h => heq (Option.some.inj h).symm
    rw [if_neg hne, if_neg heq]
    rfl

/-- The kernel takes bytes from the front of a write buffer. -/
theorem drains_read {c : TcpConnection C} (hc : s.connectionObjects.cell q = some c) (k : Nat) :
    Drains s (s.setConnection q ({ · with writeBuffer := c.writeBuffer.read k }))
      [.written q (c.writeBuffer.readable.take k)] := by
  have hold : s.shows writes q = some c.writeBuffer.readable := congrArg (Option.map _) hc
  refine ⟨Nat.le_refl _, fun q' bytes hq' => .inl ?_, fun q' => ?_⟩
  · rw [handed_traffic_written]
    rw [shows_setConnection] at hq'
    by_cases heq : q' = q
    · subst heq
      rw [if_pos rfl, hc] at hq'
      cases hq'
      rw [hold, if_pos rfl]
      show some _ = some (_ ++ (c.writeBuffer.read k).readable)
      rw [DynamicBuffer.readable_read, List.take_append_drop]
    · rw [if_neg heq] at hq'
      rw [if_neg heq]
      exact hq'
  · rw [handed_traffic_written]
    by_cases heq : q' = q
    · subst heq
      rw [if_pos rfl, hold]
      exact List.take_prefix _ _
    · rw [if_neg heq]
      exact List.nil_prefix

theorem sendComplete_handed (s : TcpService C) (q : Nat) (id : SocketId)
    (cb : Option (SendCompleteCallback C)) :
    Outcome.Ensures (fun _ => True) (fun r => ∀ q', handed (traffic q' r.2) = [])
      (s.sendComplete q id cb) := by
  have hcompleted : ∀ cb q', handed (traffic q' [.completed q id cb] : List (TcpOutput C)) = [] := by
    intro cb q'
    rw [traffic_cons]
    split <;> rfl
  unfold sendComplete
  split
  · exact fun _ => rfl
  · exact hcompleted _
  · exact .bind_of_forall fun _ => hcompleted _

theorem onSocketWrite_drains (s : TcpService C) (p : Nat) (result : SendResult) :
    Outcome.Ensures (fun _ => True) (fun r => Drains s r.1 r.2) (s.onSocketWrite p result) := by
  have hquiet : Drains s s [] := (Same.refl s).drains notices_nil.handed
  refine .bind_of_forall fun x => ?_
  split
  · exact hquiet
  next q _ =>
    cases hc : s.connectionObjects.cell q with
    | none =>
      have hat : s.connectionAt q = .error .dangling := by
        unfold connectionAt
        rw [hc]
        rfl
      rw [hat]
      trivial
    | some c =>
      rw [connectionAt_eq hc, Outcome.ok_bind]
      cases result with
      | error errno =>
        exact (setErrorAndReport_same s q x.id errno).toWrites.drains
          (setErrorAndReport_notices s q x.id errno).handed
      | again => exact hquiet
      | accepted n =>
        have hread := drains_read hc (SendResult.writeSize c.writeBuffer.readableBytes (.accepted n))
        dsimp only
        split
        · have hidle : Drains s _ [_] := hread.trans (((Same.refl _).setSocket p
            ({ · with writeCb := none })).setConnection q (f := ({ · with sendCompleteCb := none }))
              fun _ => rfl) notices_nil.handed
          exact ((sendComplete_same _ q x.id c.sendCompleteCb).and
            (sendComplete_handed _ q x.id c.sendCompleteCb)).bind fun r hr => hidle.trans hr.1 hr.2
        · exact hread

/-! ## Messages -/

/-- What `sendMessage` returns, as its outputs say. -/
def accepts (outs : List (TcpOutput C)) : Bool := outs.any fun | .accepted _ _ _ => true | _ => false

/-- What a `sendMessage` without a callback does to the bytes of a connection `c` and to
others. -/
structure Sends (s : TcpService C) (q : Nat) (c : TcpConnection C) (message : List UInt8)
    (r : TcpService C × List (TcpOutput C)) : Prop where
  connections : r.1.connections = s.connections
  next : r.1.connectionObjects.next = s.connectionObjects.next
  others : ∀ q', q' ≠ q → r.1.shows writes q' = s.shows writes q' ∧ handed (traffic q' r.2) = []
  begun : handed (traffic q r.2) <+: c.writeBuffer.readable ++ message
  accepted : accepts r.2 = true → ∀ bytes, r.1.shows writes q = some bytes →
    c.writeBuffer.readable ++ message = handed (traffic q r.2) ++ bytes

theorem handed_traffic_cons (q q' : Nat) (bytes : List UInt8) (l : List (TcpOutput C)) :
    handed (traffic q' (.written q bytes :: l)) =
      (if q' = q then bytes else []) ++ handed (traffic q' l) := by
  rw [← handed_traffic_written (C := C), ← handed_append, ← traffic_append]
  rfl

/-- An error is kept, the buffers are left. -/
theorem sendError_sends {c : TcpConnection C} (message : List UInt8) (id : SocketId) (errorCode : Int)
    (now : Timestamp) {outs : List (TcpOutput C)} (hrefused : accepts outs = false)
    (hothers : ∀ q', q' ≠ q → handed (traffic q' outs) = [])
    (hbegun : handed (traffic q outs) <+: c.writeBuffer.readable ++ message) :
    Outcome.Ensures (fun _ => True) (fun s' => Sends s q c message (s', outs))
      (s.sendError q id errorCode now) := by
  refine .bind_of_forall fun r => ⟨rfl, rfl, fun q' hne => ⟨?_, hothers q' hne⟩, hbegun, ?_⟩
  · exact (shows_setConnection writes s q (·.setError errorCode) q').trans (if_neg hne)
  · intro h
    rw [hrefused] at h
    cases h

/-- Data are queued behind what the connection holds. -/
theorem queueMessage_sends {c : TcpConnection C} (hc : s.connectionObjects.cell q = some c)
    (data : List UInt8) (allocated : Bool) : Outcome.Ensures (fun _ => True)
      (fun r => ∀ s' ∈ r, s'.connections = s.connections ∧
        s'.connectionObjects.next = s.connectionObjects.next ∧
        (∀ q', q' ≠ q → s'.shows writes q' = s.shows writes q') ∧
        s'.shows writes q = some (c.writeBuffer.readable ++ data))
      (s.queueMessage q c data none allocated) := by
  rcases queueMessage_spec (s := s) (q := q) c data none allocated with
    ⟨e₁, -⟩ | e₁ | ⟨writeBuffer, -, hread, e₁⟩ <;> rw [e₁]
  · exact fun s' hs' => absurd hs' (by simp)
  · trivial
  · intro s' hs'
    obtain rfl := Option.mem_some.mp hs'
    refine ⟨rfl, rfl, fun q' hne => (shows_setConnection writes s q _ q').trans (if_neg hne), ?_⟩
    rw [shows_setConnection, if_pos rfl, hc, Option.map_some, ← hread]
    rfl

/-- A message of which `k` bytes have been handed over is accepted. -/
theorem sends_accepted {c : TcpConnection C} {message : List UInt8} {k : Nat}
    (hk : k = 0 ∨ c.writeBuffer.readable = []) (hconnections : s'.connections = s.connections)
    (hnext : s'.connectionObjects.next = s.connectionObjects.next)
    (hothers : ∀ q', q' ≠ q → s'.shows writes q' = s.shows writes q')
    (hq : s'.shows writes q = some (c.writeBuffer.readable ++ message.drop k))
    (houts : ∀ q', handed (traffic q' outs) = if q' = q then message.take k else []) :
    Sends s q c message (s', outs) := by
  have hbytes : c.writeBuffer.readable ++ message =
      handed (traffic q outs) ++ (c.writeBuffer.readable ++ message.drop k) := by
    rw [houts, if_pos rfl]
    rcases hk with rfl | hnil
    · rfl
    · rw [hnil, List.nil_append, List.nil_append, List.take_append_drop]
  refine ⟨hconnections, hnext, fun q' hne => ⟨hothers q' hne, by rw [houts, if_neg hne]⟩, ?_, ?_⟩
  · rw [hbytes]
    exact List.prefix_append _ _
  · intro _ bytes hread
    rw [hq] at hread
    cases hread
    exact hbytes

theorem sendMessageOn_sends {c : TcpConnection C} (hc : s.connectionObjects.cell q = some c)
    (message : List UInt8) (answer : SendAnswer) :
    Outcome.Ensures (fun _ => True) (Sends s q c message) (s.sendMessageOn q message none answer) := by
  have hsame : ∀ {outs : List (TcpOutput C)}, accepts outs = false →
      (∀ q', q' ≠ q → handed (traffic q' outs) = []) →
      handed (traffic q outs) <+: c.writeBuffer.readable ++ message → Sends s q c message (s, outs) :=
    fun hrefused hothers hbegun => ⟨rfl, rfl, fun q' hne => ⟨rfl, hothers q' hne⟩, hbegun, fun h => by
      rw [hrefused] at h
      cases h⟩
  -- what is seen of bytes that are handed over before the message is refused
  have hwritten : ∀ (bytes : List UInt8) (o : TcpOutput C), o.trafficOf = none →
      ∀ q', handed (traffic q' [.written q bytes, o]) = if q' = q then bytes else [] := by
    intro bytes o ho q'
    rw [handed_traffic_cons, handed_of_quiet (by simpa using ho), List.append_nil]
  have hnone : ∀ o : TcpOutput C, o.trafficOf = none → ∀ q', handed (traffic q' [o]) = [] :=
    fun o ho => handed_of_quiet (by simpa using ho)
  have haccepted : ∀ q', handed (traffic q' [.accepted q message none] : List (TcpOutput C)) = [] := by
    intro q'
    rw [traffic_cons]
    split <;> rfl
  unfold sendMessageOn
  rw [connectionAt_eq hc, Outcome.ok_bind]
  split
  · exact hsame rfl (fun q' _ => hnone _ rfl q') (by rw [hnone _ rfl]; exact List.nil_prefix)
  refine .bind_of_forall fun x => ?_
  split
  next hempty =>
    have hnil : c.writeBuffer.readable = [] := by
      rw [← List.length_eq_zero_iff, DynamicBuffer.length_readable]
      exact hempty
    cases answer.result with
    | error errno =>
      exact (sendError_sends message x.id errno answer.now rfl (fun q' _ => hnone _ rfl q')
        (by rw [hnone _ rfl]; exact List.nil_prefix)).bind fun s' hs' => hs'
    | accepted _ | again =>
      dsimp only
      generalize SendResult.writeSize message.length _ = k
      have hbegun : ∀ o : TcpOutput C, o.trafficOf = none →
          handed (traffic q [.written q (message.take k), o]) <+: c.writeBuffer.readable ++ message := by
        intro o ho
        rw [hwritten _ o ho, if_pos rfl, hnil, List.nil_append]
        exact List.take_prefix k message
      have hothers : ∀ (bytes : List UInt8) (o : TcpOutput C), o.trafficOf = none → ∀ q', q' ≠ q →
          handed (traffic q' [.written q bytes, o]) = [] := fun bytes o ho q' hne => by
        rw [hwritten bytes o ho, if_neg hne]
      split
      next hrest =>
        split
        · exact (sendError_sends message x.id ENOBUFS answer.now rfl (hothers _ _ rfl)
            (hbegun _ rfl)).bind fun s' hs' => hs'
        · refine (queueMessage_sends hc (message.drop k) answer.allocated).bind fun r hr => ?_
          cases r with
          | none => exact hsame rfl (hothers _ _ rfl) (hbegun _ rfl)
          | some s' =>
            obtain ⟨hconnections, hnext, hothers', hq⟩ := hr s' rfl
            exact sends_accepted (.inr hnil) hconnections hnext hothers' hq fun q' => by
              rw [handed_traffic_cons, haccepted, List.append_nil]
      next hrest =>
        have hall : message.length ≤ k := by
          rw [List.length_drop] at hrest
          omega
        refine sends_accepted (k := k) (.inr hnil) rfl rfl (fun _ _ => rfl) ?_ fun q' => ?_
        · rw [List.drop_eq_nil_of_le hall, List.append_nil]
          exact congrArg (Option.map _) hc
        · rw [handed_traffic_cons, haccepted, List.append_nil]
  · split
    · exact (sendError_sends message x.id ENOBUFS answer.now rfl (fun q' _ => hnone _ rfl q')
        (by rw [hnone _ rfl]; exact List.nil_prefix)).bind fun s' hs' => hs'
    · refine (queueMessage_sends hc message answer.allocated).bind fun r hr => ?_
      cases r with
      | none =>
        exact hsame rfl (fun q' _ => hnone _ rfl q') (by rw [hnone _ rfl]; exact List.nil_prefix)
      | some s' =>
        obtain ⟨hconnections, hnext, hothers', hq⟩ := hr s' rfl
        exact sends_accepted (k := 0) (.inl rfl) hconnections hnext hothers' hq fun q' => by
          rw [haccepted, List.take_zero, ite_self]

end TcpService

end Brickred
