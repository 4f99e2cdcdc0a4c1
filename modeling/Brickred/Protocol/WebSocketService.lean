import Brickred.Protocol.WebSocketClose

/-!
# Messages on an open connection

After the handshake, and until a close frame is sent or received or an error is
reported, the connection stays open: every message is sent, unless one that has been
received is still to be retrieved.
-/

namespace Brickred

open Transition

namespace WebSocketProtocol

variable {p q : WebSocketProtocol} {buffer rest date : Bytes} {c : Call} {k : Pending}
  {opcode : Nat} {op : Op}

/-- What a call adds to the log. -/
def Call.event : Call → Event
  | .returned r _ => .returned r
  | .output o _ _ => .output o

/-- The handshake is over and the connection has not ended. -/
def IsOpen (p : WebSocketProtocol) : Prop := p.status = .connected ∨ p.status = .finished

/-- A connection stays open unless its end is reported, and it is open when this is
reported. -/
structure Opens (p : WebSocketProtocol) (c : Call) : Prop where
  stays : p.IsOpen → c.object.IsOpen ∨ c.event = .returned (.code .error) ∨
    c.event = .returned (.code .peerClosed)
  opens : c.event = .returned (.code .connectionEstablished) → c.object.IsOpen

theorem Opens.of_status (h : c.object.status = p.status)
    (hevent : c.event ≠ .returned (.code .connectionEstablished)) : Opens p c where
  stays hp := .inl (by rwa [IsOpen, h])
  opens he := absurd he hevent

theorem Opens.of_error (h : c.event = .returned (.code .error)) : Opens p c where
  stays _ := .inr (.inl h)
  opens he := by cases h.symm.trans he

theorem Opens.of_kept (hkept : Kept p q) (h : Opens q c) : Opens p c where
  stays hp := h.stays (by rwa [IsOpen, hkept.status])
  opens := h.opens

/-- The return of the output callback. -/
theorem goOn_opens (p : WebSocketProtocol) (k : Pending) : Opens p (p.goOn k) := by
  cases k with
  | sent | started | ponged => exact .of_status rfl nofun
  | refused => exact .of_error rfl
  | accepted => exact ⟨fun _ => .inl (.inl rfl), fun _ => .inl rfl⟩
  | closed => exact ⟨fun _ => .inr (.inr rfl), nofun⟩

theorem Sends.opens (h : Sends p k opcode c) : Opens p c := by
  cases h with
  | skipped => exact goOn_opens p k
  | muted =>
    have h := goOn_opens { p with random := ‹_›, closeFrameSent := ‹_› } k
    exact ⟨h.stays, h.opens⟩
  | sent => exact .of_status rfl nofun

theorem emit_opens (p : WebSocketProtocol) (o : Output) (k : Pending) : Opens p (p.emit o k) := by
  unfold emit
  split
  · exact .of_status rfl nofun
  · exact goOn_opens p k

theorem Concluded.opens (h : Concluded p buffer (some (c, rest))) :
    Opens p c := by
  generalize hr : some (c, rest) = r at h
  cases h with
  | more =>
    cases hr
    exact .of_status rfl nofun
  | malformed | failed =>
    cases hr
    exact .of_error rfl
  | data =>
    cases hr
    exact ⟨fun _ => .inl (.inr rfl), nofun⟩
  | @close f last =>
    cases hr
    exact (sendCloseFrame_sends _ _).opens.of_kept (kept_taken p f last)
  | @ping f last =>
    obtain ⟨c, hc, hr⟩ := Option.map_eq_some_iff.mp hr.symm
    cases hr
    exact (sendPongFrame_sends hc).opens.of_kept (kept_taken p f last)
  | @pong f last =>
    cases hr
    exact .of_status (kept_taken p f last).status nofun

theorem Shaken.opens (hp : ¬ p.IsOpen) (h : Shaken p (some (c, rest))) : Opens p c := by
  refine ⟨fun h => absurd h hp, fun he => ?_⟩
  cases h with
  | more | failed => cases he
  | established => exact .inl rfl
  | answered => exact (emit_opens _ _ _).opens he

theorem recvMessage_opens (h : p.recvMessage date buffer = some (c, rest)) : Opens p c := by
  have hidle : some (c, rest) = some (.returned (.code .error) p, buffer) → Opens p c := by
    rintro ⟨⟩
    exact .of_error rfl
  cases hp : p.status with
  | connected =>
    obtain ⟨q, b, hfragments, hconcluded⟩ := @recvMessage_concluded p buffer date hp
    rw [h] at hconcluded
    exact hconcluded.opens.of_kept hfragments.kept
  | waitingHandshakeRequest =>
    exact (h ▸ @recvMessage_request p buffer date hp).opens (by simp [IsOpen, hp])
  | waitingHandshakeResponse =>
    exact (h ▸ @recvMessage_response p buffer date hp).opens (by simp [IsOpen, hp])
  | detached => exact hidle (h.symm.trans (recvMessage_idle (.inl hp)))
  | finished => exact hidle (h.symm.trans (recvMessage_idle (.inr (.inl hp))))
  | closed => exact hidle (h.symm.trans (recvMessage_idle (.inr (.inr (.inl hp)))))
  | pendingError => exact hidle (h.symm.trans (recvMessage_idle (.inr (.inr (.inr hp)))))

theorem start_opens (h : start p op = some c) : Opens p c := by
  cases op with
  | setOutputCallback | setHandshakeHeader =>
    cases h
    exact .of_status rfl nofun
  | setMessageMaxSize size =>
    cases h
    refine .of_status ?_ nofun
    show (p.setMessageMaxSize size).status = p.status
    unfold setMessageMaxSize
    split <;> rfl
  | startAsClient ip port random requestUri =>
    cases startAsClient_startsClient h with
    | refused => exact .of_status rfl nofun
    | started hp =>
      exact ⟨fun h => by simp [IsOpen, hp] at h, (emit_opens _ _ _).opens⟩
  | startAsServer =>
    cases h
    refine ⟨fun hp => .inl ?_, nofun⟩
    show p.startAsServer.2.IsOpen
    unfold startAsServer
    split
    · exact hp
    · rename_i hstatus
      rw [not_not] at hstatus
      simp [IsOpen, hstatus] at hp
  | recvMessage date buffer =>
    obtain ⟨⟨c', rest⟩, hr, rfl⟩ := Option.map_eq_some_iff.mp h
    exact recvMessage_opens hr
  | retrieveMessage =>
    cases h
    refine ⟨fun hp => .inl ?_, nofun⟩
    show p.retrieveMessage.2.IsOpen
    unfold retrieveMessage
    split
    · exact hp
    · exact .inl rfl
  | sendMessage data =>
    cases h
    exact (sendMessage_sends p data).opens
  | sendCloseFrame =>
    cases h
    exact (sendCloseFrame_sends p .sent).opens
  | sendPingFrame =>
    cases h
    exact (sendPingFrame_sends p).opens

/-! ## In every session -/

/-- The handshake is over; since then neither an error nor the closing by the peer has
been reported, and no close frame has been sent. -/
def InService (log : List Event) : Prop :=
  (∃ before since, log = before ++ .returned (.code .connectionEstablished) :: since ∧
    .returned (.code .error) ∉ since ∧ .returned (.code .peerClosed) ∉ since) ∧
  ∀ e ∈ log, e.isClose = false

theorem InService.of_append {log : List Event} {e : Event} (h : InService (log ++ [e])) :
    e = .returned (.code .connectionEstablished) ∨
      (InService log ∧ e ≠ .returned (.code .error) ∧ e ≠ .returned (.code .peerClosed)) := by
  obtain ⟨⟨before, since, hlog, herror, hclosed⟩, hclose⟩ := h
  obtain rfl | ⟨since, x, rfl⟩ := List.eq_nil_or_concat since
  · exact .inl (List.cons.inj (List.append_inj' hlog rfl).2).1
  · rw [List.concat_eq_append] at hlog herror hclosed
    obtain ⟨hlog', hx⟩ :=
      List.append_inj' (hlog.trans (List.append_assoc before (_ :: since) [x]).symm) rfl
    cases hx
    refine .inr ⟨⟨⟨before, since, hlog', ?_, ?_⟩, ?_⟩, ?_, ?_⟩
    · exact fun hmem => herror (List.mem_append_left _ hmem)
    · exact fun hmem => hclosed (List.mem_append_left _ hmem)
    · exact fun e he => hclose e (List.mem_append_left _ he)
    · rintro rfl
      exact herror (by simp)
    · rintro rfl
      exact hclosed (by simp)

theorem log_after (s : Session) (c : Call) : (s.after c).log = s.log ++ [c.event] := by
  cases c <;> rfl

theorem object_after (s : Session) (c : Call) : (s.after c).object = c.object := by
  cases c <;> rfl

/-- A connection in service is open. -/
theorem isOpen_step {s s' : Session} {m : Move} (hs : InService s.log → s.object.IsOpen)
    (h : Session.Steps s m s') : InService s'.log → s'.object.IsOpen := by
  have hopens : ∀ c, Opens s.object c → InService (s.log ++ [c.event]) → c.object.IsOpen := by
    intro c hc hin
    obtain hevent | ⟨hin', herror, hclosed⟩ := hin.of_append
    · exact hc.opens hevent
    · obtain hopen | hevent | hevent := hc.stays (hs hin')
      · exact hopen
      · exact absurd hevent herror
      · exact absurd hevent hclosed
  obtain ⟨op, c, -, hc, rfl⟩ | ⟨k, stack, -, -, rfl⟩ := Session.steps_cases h
  · rw [log_after, object_after]
    exact hopens c (start_opens hc)
  · exact hopens _ (goOn_opens s.object k)

/-- On a connection in service a message is sent as one complete frame, unless a
message that has been received is ready and not retrieved: then nothing is sent. -/
theorem session_sendMessage {moves : List Move} {s : Session}
    (h : Run Session.Steps (.init (construct true)) moves s)
    (hmoves : .call (.setOutputCallback false) ∉ moves) (hservice : InService s.log)
    {data : Bytes} (hlt : data.length < 2 ^ 64) :
    (s.object.status ≠ .finished → ∃ (f : Frame) (random : Nat → UInt8),
      f.IsSent s.object.isClient 2 data ∧
      s.step (.call (.sendMessage data)) = some ⟨{ s.object with random }, .sent :: s.stack,
        s.log ++ [.output (.frame 2 f.encode)]⟩) ∧
    (s.object.status = .finished →
      s.step (.call (.sendMessage data)) = some { s with log := s.log ++ [.returned .void] }) := by
  have hopen : s.object.IsOpen :=
    h.invariant (I := fun s => InService s.log → s.object.IsOpen) isOpen_step
      (fun hin => by simpa [Session.init] using hin.1) hservice
  constructor
  · intro hstatus
    have hconnected := hopen.resolve_right hstatus
    obtain ⟨hguarded, hinstalled⟩ := run_installed h rfl hmoves
    have hanswered := (session_answered hguarded).2
    have hclose : s.object.closeFrameSent = false := by
      by_contra hsent
      have hone := hanswered.sent (by simpa using hsent)
      rw [List.countP_eq_zero.mpr fun e he => by simp [hservice.2 e he]] at hone
      cases hone
    obtain ⟨f, random, hf, hsend⟩ := sendMessage_eq hconnected hclose hinstalled hlt
    refine ⟨f, random, hf, ?_⟩
    show some (s.after (s.object.sendMessage data)) = _
    rw [hsend]
    rfl
  · intro hstatus
    show some (s.after (s.object.sendMessage data)) = _
    unfold sendMessage
    rw [if_pos (by simp [hstatus])]
    rfl

/-- What can be seen of a session that is in service since its third event. -/
def served (status : WebSocketStatus) (s : Session) : Bool :=
  s.object.status = status ∧
    s.log = s.log.take 2 ++ .returned (.code .connectionEstablished) :: s.log.drop 3 ∧
    .returned (.code .error) ∉ s.log.drop 3 ∧ .returned (.code .peerClosed) ∉ s.log.drop 3 ∧
    ∀ e ∈ s.log, e.isClose = false

theorem exists_served {status : WebSocketStatus} {moves : List Move}
    (h : ((Session.init (construct true)).run moves).any (served status) = true) :
    ∃ s, Run Session.Steps (.init (construct true)) moves s ∧ s.object.status = status ∧
      InService s.log := by
  obtain ⟨s, hrun, hserved⟩ := (Option.any_eq_true _ _).mp h
  obtain ⟨hstatus, hlog, herror, hclosed, hclose⟩ := of_decide_eq_true hserved
  exact ⟨s, Session.run_of_eq hrun, hstatus, ⟨_, _, hlog, herror, hclosed⟩, hclose⟩


/-- A server that sends a message after the handshake. -/
theorem session_sendMessage_established :
    ∃ s : Session, (s.object.status ≠ .finished → ∃ (f : Frame) (random : Nat → UInt8),
      f.IsSent s.object.isClient 2 [0x61] ∧
      s.step (.call (.sendMessage [0x61])) = some ⟨{ s.object with random }, .sent :: s.stack,
        s.log ++ [.output (.frame 2 f.encode)]⟩) ∧
    (s.object.status = .finished →
      s.step (.call (.sendMessage [0x61])) =
        some { s with log := s.log ++ [.returned .void] }) := by
  have hserved : ((Session.init (construct true)).run established).any (served .connected) = true := by
    decide +kernel
  obtain ⟨s, hrun, -, hservice⟩ := exists_served hserved
  exact ⟨s, session_sendMessage hrun (by simp [established]) hservice (by decide)⟩

/-- A message is lost while one that has been received is not retrieved. -/
theorem session_sendMessage_lost :
    ¬ ∀ (moves : List Move) (s : Session) (data : Bytes),
      Run Session.Steps (.init (construct true)) moves s →
      .call (.setOutputCallback false) ∉ moves → InService s.log → data.length < 2 ^ 64 →
      ∃ (f : Frame) (s' : Session), f.IsSent s.object.isClient 2 data ∧
        s.step (.call (.sendMessage data)) = some s' ∧
        s'.log = s.log ++ [.output (.frame 2 f.encode)] := by
  intro h
  have hserved : ((Session.init (construct true)).run
      (established ++ [.call (.recvMessage [] [0x81, 0x80, 0, 0, 0, 0])])).any
      (served .finished) = true := by
    decide +kernel
  obtain ⟨s, hrun, hstatus, hservice⟩ := exists_served hserved
  obtain ⟨f, s', -, hstep, hlog⟩ := h _ s [0x61] hrun (by simp [established]) hservice (by decide)
  have hskip : s.step (.call (.sendMessage [0x61])) =
      some { s with log := s.log ++ [.returned .void] } := by
    show some (s.after (s.object.sendMessage [0x61])) = _
    unfold sendMessage
    rw [if_pos (by simp [hstatus])]
    rfl
  cases hskip.symm.trans hstep
  cases (List.append_inj' hlog rfl).2

end WebSocketProtocol

end Brickred
