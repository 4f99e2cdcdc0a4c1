import Brickred.Protocol.WebSocketSession

/-!
# Close frames

In every session at most one close frame is sent and no frame after it, and
`close_frame_sent_` says whether it has been, as long as there is a callback to pass it
to.
-/

namespace Brickred

open Transition

namespace WebSocketProtocol

variable {p q : WebSocketProtocol} {buffer rest date : Bytes} {c : Call} {k : Pending}
  {opcode : Nat} {op : Op}

@[simp] theorem closeFrameSent_resume : (p.resume k).2.closeFrameSent = p.closeFrameSent := by
  cases k <;> rfl

theorem resume_peerClosed (h : (p.resume k).1 = .code .peerClosed) : k = .closed := by
  cases k <;> first | rfl | cases h

/-- What a call does to `close_frame_sent_`. -/
inductive Flagged (p : WebSocketProtocol) : Call → Prop where
  | returned {r : Result} {q : WebSocketProtocol} :
      (q.closeFrameSent = true → p.closeFrameSent = true ∨ p.outputCb = false) →
      (p.closeFrameSent = true → q.closeFrameSent = true) →
      (r = .code .peerClosed → q.closeFrameSent = true) → Flagged p (.returned r q)
  | handshake {text : Bytes} {k : Pending} {q : WebSocketProtocol} :
      q.closeFrameSent = p.closeFrameSent → k ≠ .closed →
      Flagged p (.output (.handshake text) k q)
  | frame {opcode : Nat} {text : Bytes} {k : Pending} {q : WebSocketProtocol} :
      p.closeFrameSent = false → (q.closeFrameSent = true ↔ opcode = 8) →
      (k = .closed → opcode = 8) → Flagged p (.output (.frame opcode text) k q)

theorem Flagged.of_returned {r : Result} (h : q.closeFrameSent = p.closeFrameSent)
    (hr : r ≠ .code .peerClosed) : Flagged p (.returned r q) :=
  .returned (fun hq => .inl (h ▸ hq)) (fun hp => h.trans hp) fun he => absurd he hr

theorem Flagged.of_kept (hkept : Kept p q) (h : Flagged q c) : Flagged p c := by
  cases h with
  | returned h₁ h₂ h₃ =>
    rw [hkept.closeFrameSent, hkept.outputCb] at h₁
    rw [hkept.closeFrameSent] at h₂
    exact .returned h₁ h₂ h₃
  | handshake h₁ h₂ => exact .handshake (h₁.trans hkept.closeFrameSent) h₂
  | frame h₁ h₂ h₃ => exact .frame (hkept.closeFrameSent ▸ h₁) h₂ h₃

theorem Sends.flagged (h : Sends p k opcode c)
    (hclosed : k = .closed → opcode = 8 ∧ p.status = .connected) : Flagged p c := by
  cases h with
  | skipped hskip =>
    refine .returned (fun hq => .inl ?_) (fun hp => ?_) fun hr => ?_
    · rwa [closeFrameSent_resume] at hq
    · rwa [closeFrameSent_resume]
    · rw [closeFrameSent_resume]
      exact hskip.resolve_left (not_not.mpr (hclosed (resume_peerClosed hr)).2)
  | muted hcb hsent =>
    refine .returned (fun _ => .inr hcb) (fun hp => ?_) fun hr => ?_
    · rw [closeFrameSent_resume]
      exact hsent.mpr (.inl hp)
    · rw [closeFrameSent_resume]
      exact hsent.mpr (.inr (hclosed (resume_peerClosed hr)).1)
  | sent _ hclose _ hsent => exact .frame hclose hsent fun hk => (hclosed hk).1

theorem emit_handshake_flagged {text : Bytes} (hk : k ≠ .closed)
    (h : q.closeFrameSent = p.closeFrameSent) : Flagged p (q.emit (.handshake text) k) := by
  unfold emit
  split
  · exact .handshake h hk
  · exact .of_returned (closeFrameSent_resume.trans h) fun hr => hk (resume_peerClosed hr)

theorem Shaken.flagged (h : Shaken p (some (c, rest))) : Flagged p c := by
  cases h with
  | more => exact .of_returned rfl nofun
  | failed => exact .of_returned rfl nofun
  | established => exact .of_returned rfl nofun
  | answered hk => exact emit_handshake_flagged (by rintro rfl; simp at hk) rfl

theorem Concluded.flagged (hp : p.status = .connected) (h : Concluded p buffer (some (c, rest))) :
    Flagged p c := by
  generalize hr : some (c, rest) = r at h
  cases h with
  | more =>
    cases hr
    exact .of_returned rfl nofun
  | malformed =>
    cases hr
    exact .of_returned rfl nofun
  | @failed f last =>
    cases hr
    exact .of_returned (kept_taken p f last).closeFrameSent nofun
  | @data f last =>
    cases hr
    exact .of_returned (kept_taken p f last).closeFrameSent nofun
  | @close f last =>
    cases hr
    refine ((sendCloseFrame_sends _ _).flagged fun _ => ⟨rfl, ?_⟩).of_kept (kept_taken p f last)
    rw [status_taken, hp]
  | @ping f last =>
    obtain ⟨c, hc, hr⟩ := Option.map_eq_some_iff.mp hr.symm
    cases hr
    exact ((sendPongFrame_sends hc).flagged nofun).of_kept (kept_taken p f last)
  | @pong f last =>
    cases hr
    exact .of_returned (kept_taken p f last).closeFrameSent nofun

theorem recvMessage_flagged (h : p.recvMessage date buffer = some (c, rest)) : Flagged p c := by
  cases hp : p.status with
  | connected =>
    obtain ⟨q, b, hfragments, hconcluded⟩ := @recvMessage_concluded p buffer date hp
    rw [h] at hconcluded
    exact (hconcluded.flagged (hfragments.kept.status.trans hp)).of_kept hfragments.kept
  | waitingHandshakeRequest => exact (h ▸ @recvMessage_request p buffer date hp).flagged
  | waitingHandshakeResponse => exact (h ▸ @recvMessage_response p buffer date hp).flagged
  | detached =>
    cases h.symm.trans (recvMessage_idle (.inl hp))
    exact .of_returned rfl nofun
  | finished =>
    cases h.symm.trans (recvMessage_idle (.inr (.inl hp)))
    exact .of_returned rfl nofun
  | closed =>
    cases h.symm.trans (recvMessage_idle (.inr (.inr (.inl hp))))
    exact .of_returned rfl nofun
  | pendingError =>
    cases h.symm.trans (recvMessage_idle (.inr (.inr (.inr hp))))
    exact .of_returned rfl nofun

theorem start_flagged (h : start p op = some c) : Flagged p c := by
  cases op with
  | setOutputCallback | setHandshakeHeader =>
    cases h
    exact .of_returned rfl nofun
  | setMessageMaxSize size =>
    cases h
    refine .of_returned ?_ nofun
    unfold setMessageMaxSize
    split <;> rfl
  | startAsClient ip port random requestUri =>
    cases startAsClient_startsClient h with
    | refused => exact .of_returned rfl nofun
    | started => exact emit_handshake_flagged nofun rfl
  | startAsServer =>
    cases h
    refine .of_returned ?_ nofun
    unfold startAsServer
    split <;> rfl
  | recvMessage date buffer =>
    obtain ⟨⟨c', rest⟩, hr, rfl⟩ := Option.map_eq_some_iff.mp h
    exact recvMessage_flagged hr
  | retrieveMessage =>
    cases h
    refine .of_returned ?_ nofun
    unfold retrieveMessage
    split <;> rfl
  | sendMessage data =>
    cases h
    exact (sendMessage_sends p data).flagged nofun
  | sendCloseFrame =>
    cases h
    exact (sendCloseFrame_sends p .sent).flagged nofun
  | sendPingFrame =>
    cases h
    exact (sendPingFrame_sends p).flagged nofun

/-! ## The calls that leave the flag alone -/

/-- A call that may send a close frame. -/
def Op.MayClose : Op → Prop
  | .recvMessage _ _ | .sendCloseFrame => True
  | _ => False

theorem Sends.closeFrameSent (h : Sends p k opcode c) (hopcode : opcode ≠ 8) :
    c.object.closeFrameSent = p.closeFrameSent := by
  cases h with
  | skipped => exact closeFrameSent_resume
  | muted _ hsent =>
    show (resume _ k).2.closeFrameSent = _
    rw [closeFrameSent_resume, Bool.eq_iff_iff, hsent, or_iff_left hopcode]
  | sent _ hclose _ hsent =>
    rw [hclose, ← Bool.not_eq_true, Call.object, hsent]
    exact hopcode

theorem closeFrameSent_emit {o : Output} :
    (p.emit o k).object.closeFrameSent = p.closeFrameSent := by
  unfold emit
  split
  · rfl
  · exact closeFrameSent_resume

theorem start_closeFrameSent (h : start p op = some c) (hop : ¬op.MayClose) :
    c.object.closeFrameSent = p.closeFrameSent := by
  cases op with
  | recvMessage | sendCloseFrame => exact absurd trivial hop
  | setOutputCallback | setHandshakeHeader =>
    cases h
    rfl
  | setMessageMaxSize size =>
    cases h
    show (p.setMessageMaxSize size).closeFrameSent = p.closeFrameSent
    unfold setMessageMaxSize
    split <;> rfl
  | startAsClient ip port random requestUri =>
    cases startAsClient_startsClient h with
    | refused => rfl
    | started => exact closeFrameSent_emit
  | startAsServer =>
    cases h
    show p.startAsServer.2.closeFrameSent = p.closeFrameSent
    unfold startAsServer
    split <;> rfl
  | retrieveMessage =>
    cases h
    show p.retrieveMessage.2.closeFrameSent = p.closeFrameSent
    unfold retrieveMessage
    split <;> rfl
  | sendMessage data =>
    cases h
    exact (sendMessage_sends p data).closeFrameSent (by decide)
  | sendPingFrame =>
    cases h
    exact (sendPingFrame_sends p).closeFrameSent (by decide)

/-! ## In every session -/

/-- A frame is passed to the output callback. -/
def Event.isFrame : Event → Bool
  | .output (.frame _ _) => true
  | _ => false

/-- A close frame is passed to the output callback. -/
def Event.isClose : Event → Bool
  | .output (.frame opcode _) => opcode = 8
  | _ => false

/-- Nothing that has been sent is behind a close frame. -/
structure CloseLast (s : Session) : Prop where
  unsent : s.object.closeFrameSent = false → ∀ e ∈ s.log, e.isClose = false
  last : s.log.Pairwise fun e e' => e.isClose = true → e'.isFrame = false

theorem isFrame_of_isClose {e : Event} (h : e.isClose = true) : e.isFrame = true := by
  unfold Event.isClose at h
  split at h
  · rfl
  · cases h

/-- An event that is no frame. -/
theorem CloseLast.append {s s' : Session} {e : Event} (hs : CloseLast s)
    (he : e.isFrame = false) (hlog : s'.log = s.log ++ [e])
    (hclose : s'.object.closeFrameSent = false → s.object.closeFrameSent = false) :
    CloseLast s' where
  unsent h x hx := by
    rw [hlog, List.mem_append, List.mem_singleton] at hx
    obtain hx | rfl := hx
    · exact hs.unsent (hclose h) x hx
    · by_contra hne
      rw [Bool.not_eq_false] at hne
      cases he.symm.trans (isFrame_of_isClose hne)
  last := by
    rw [hlog, List.pairwise_append]
    refine ⟨hs.last, List.pairwise_singleton _ _, fun x _ y hy _ => ?_⟩
    rw [List.mem_singleton.mp hy]
    exact he

theorem CloseLast.after {s : Session} (hs : CloseLast s) (h : Flagged s.object c) :
    CloseLast (s.after c) := by
  cases h with
  | returned _ h₂ =>
    refine hs.append (e := .returned _) rfl rfl fun hq => ?_
    rw [← Bool.not_eq_true] at hq ⊢
    exact fun hp => hq (h₂ hp)
  | handshake h₁ => exact hs.append (e := .output (.handshake _)) rfl rfl fun hq => h₁ ▸ hq
  | @frame opcode text k q h₁ h₂ =>
    have hnone := hs.unsent h₁
    constructor
    · intro hq e he
      rw [← Bool.not_eq_true, Session.after, h₂] at hq
      rw [Session.after, List.mem_append, List.mem_singleton] at he
      obtain he | rfl := he
      · exact hnone e he
      · exact decide_eq_false hq
    · show (s.log ++ [_]).Pairwise _
      rw [List.pairwise_append]
      refine ⟨hs.last, List.pairwise_singleton _ _, fun x hx _ _ hclose => ?_⟩
      cases (hnone x hx).symm.trans hclose

theorem closeLast_step {s s' : Session} {m : Move} (hs : CloseLast s) (h : Session.Steps s m s') :
    CloseLast s' := by
  obtain ⟨op, c, -, hc, rfl⟩ | ⟨k, stack, -, -, rfl⟩ := Session.steps_cases h
  · exact hs.after (start_flagged hc)
  · exact hs.append (e := .returned _) rfl rfl fun hq => by rwa [closeFrameSent_resume] at hq

/-- In a log where no frame is behind a close frame, there is one close frame at most. -/
theorem countP_isClose_le {log : List Event}
    (h : log.Pairwise fun e e' => e.isClose = true → e'.isFrame = false) :
    log.countP Event.isClose ≤ 1 := by
  induction h with
  | nil => exact Nat.zero_le _
  | @cons e log he _ ih =>
    rw [List.countP_cons]
    split
    · rename_i hclose
      have hzero : log.countP Event.isClose = 0 := by
        refine List.countP_eq_zero.mpr fun x hx hx' => ?_
        cases (he x hx hclose).symm.trans (isFrame_of_isClose hx')
      omega
    · exact ih

/-- The callback is installed when a call is made that may send a close frame. -/
def Installed (s : Session) (m : Move) : Prop :=
  ∀ op, m = .call op → op.MayClose → s.object.outputCb = true

/-- While that is so, the flag says whether a close frame has been sent, which it has when a
close frame has been received. -/
structure Answered (s : Session) : Prop where
  sent : s.object.closeFrameSent = true → s.log.countP Event.isClose = 1
  closing : .closed ∈ s.stack → s.object.closeFrameSent = true
  closed : ∀ before, before ++ [.returned (.code .peerClosed)] <+: s.log →
    before.countP Event.isClose = 1

/-- Something is returned. -/
theorem Answered.append {s s' : Session} {r : Result} (hs : Answered s)
    (hlog : s'.log = s.log ++ [.returned r])
    (hflag : s'.object.closeFrameSent = true → s.object.closeFrameSent = true)
    (hstack : .closed ∈ s'.stack → s'.object.closeFrameSent = true)
    (hclosed : r = .code .peerClosed → s.object.closeFrameSent = true) : Answered s' where
  sent h := by
    rw [hlog, List.countP_append, hs.sent (hflag h)]
    rfl
  closing := hstack
  closed before h := by
    rw [hlog, List.prefix_concat_iff] at h
    obtain h | h := h
    · obtain ⟨rfl, hr⟩ := List.append_inj' h rfl
      cases hr
      exact hs.sent (hclosed rfl)
    · exact hs.closed before h

theorem Answered.after {s : Session} (hs : Answered s) (hlast : CloseLast s)
    (h : Flagged s.object c) (hback : ∀ r q, c = .returned r q → q.closeFrameSent = true →
      s.object.closeFrameSent = true) : Answered (s.after c) := by
  have hprefix : ∀ {before : List Event} {o : Output},
      before ++ [.returned (.code .peerClosed)] <+: s.log ++ [.output o] →
        before.countP Event.isClose = 1 := by
    intro before o hb
    obtain hb | hb := List.prefix_concat_iff.mp hb
    · cases (List.append_inj' hb rfl).2
    · exact hs.closed before hb
  cases h with
  | returned h₁ h₂ h₃ =>
    have hback := hback _ _ rfl
    exact hs.append rfl hback (fun hmem => h₂ (hs.closing hmem)) fun hr => hback (h₃ hr)
  | handshake h₁ hk =>
    refine ⟨fun hq => ?_, fun hmem => ?_, fun before => hprefix⟩
    · show (s.log ++ [_]).countP _ = 1
      rw [List.countP_append, hs.sent (h₁ ▸ hq)]
      rfl
    · obtain hmem | hmem := List.mem_cons.mp hmem
      · exact absurd hmem.symm hk
      · exact h₁.trans (hs.closing hmem)
  | @frame opcode text k q h₁ h₂ hk =>
    have hzero : s.log.countP Event.isClose = 0 :=
      List.countP_eq_zero.mpr fun e he => by simp [hlast.unsent h₁ e he]
    refine ⟨fun hq => ?_, fun hmem => ?_, fun before => hprefix⟩
    · show (s.log ++ [_]).countP _ = 1
      have hclose : (Event.output (.frame opcode text)).isClose = true :=
        decide_eq_true (h₂.mp hq)
      rw [List.countP_append, hzero, List.countP_singleton, if_pos hclose]
    · obtain hmem | hmem := List.mem_cons.mp hmem
      · exact h₂.mpr (hk hmem.symm)
      · cases h₁.symm.trans (hs.closing hmem)

theorem answered_step {s s' : Session} {m : Move} (hs : Answered s) (hlast : CloseLast s)
    (hm : Installed s m) (h : Session.Steps s m s') : Answered s' := by
  obtain ⟨op, c, rfl, hc, rfl⟩ | ⟨k, stack, -, hstack, rfl⟩ := Session.steps_cases h
  · refine hs.after hlast (start_flagged hc) fun r q hreturned hq => ?_
    by_cases hop : op.MayClose
    · have hflagged := start_flagged hc
      rw [hreturned] at hflagged
      cases hflagged with
      | returned h₁ => exact (h₁ hq).resolve_right (by simp [hm op rfl hop])
    · rw [← start_closeFrameSent hc hop, hreturned]
      exact hq
  · refine hs.append (r := (s.object.resume k).1) rfl
      (fun hq => by rwa [closeFrameSent_resume] at hq) (fun hmem => ?_) fun hr => ?_
    · exact closeFrameSent_resume.trans
        (hs.closing (hstack ▸ List.mem_cons_of_mem _ hmem))
    · exact hs.closing (hstack ▸ resume_peerClosed hr ▸ List.mem_cons_self)

theorem closeLast_init {installed : Bool} : CloseLast (.init (construct installed)) :=
  ⟨fun _ => nofun, .nil⟩

theorem session_answered {installed : Bool} {moves : List Move} {s : Session}
    (h : Run (Guarded Installed Session.Steps) (.init (construct installed)) moves s) :
    CloseLast s ∧ Answered s := by
  have hinit : Answered (.init (construct installed)) := by
    refine ⟨nofun, nofun, fun before hb => ?_⟩
    cases (List.append_eq_nil_iff.mp (List.prefix_nil.mp hb)).2
  exact h.invariant (I := fun s => CloseLast s ∧ Answered s)
    (fun hI hstep => ⟨closeLast_step hI.1 hstep.2, answered_step hI.2 hI.1 hstep.1 hstep.2⟩)
    ⟨closeLast_init, hinit⟩

/-- A callback that is never taken away is installed at every call. -/
theorem run_installed {s s' : Session} {moves : List Move} (h : Run Session.Steps s moves s')
    (hcb : s.object.outputCb = true) (hmoves : .call (.setOutputCallback false) ∉ moves) :
    Run (Guarded Installed Session.Steps) s moves s' ∧ s'.object.outputCb = true := by
  induction h with
  | nil => exact ⟨.nil, hcb⟩
  | @cons s m s₁ moves s' hstep _ ih =>
    obtain ⟨hm, hrest⟩ := not_or.mp (mt List.mem_cons.mpr hmoves)
    have hcb₁ : s₁.object.outputCb = true := by
      obtain ⟨op, c, rfl, hc, rfl⟩ | ⟨k, stack, -, -, rfl⟩ := Session.steps_cases hstep
      · have hkept := start_outputCb hc (fun hop => hm (congrArg Move.call hop.symm)) hcb
        cases c <;> exact hkept
      · exact outputCb_resume.trans hcb
    obtain ⟨hrun, hcb'⟩ := ih hcb₁ hrest
    exact ⟨.cons ⟨fun _ _ _ => hcb, hstep⟩ hrun, hcb'⟩

/-- In every session one close frame is sent at most, and no frame after it; if the
callback is installed whenever a call may send a close frame, exactly one has been sent
when the closing of the connection by the peer is reported. -/
theorem session_closeFrames {installed : Bool} {moves : List Move} {s : Session}
    (h : Run Session.Steps (.init (construct installed)) moves s) :
    s.log.countP Event.isClose ≤ 1 ∧
    (s.log.Pairwise fun e e' => e.isClose = true → e'.isFrame = false) ∧
    (Run (Guarded Installed Session.Steps) (.init (construct installed)) moves s →
      ∀ before, before ++ [.returned (.code .peerClosed)] <+: s.log →
        before.countP Event.isClose = 1) := by
  have hlast : CloseLast s := h.invariant closeLast_step closeLast_init
  exact ⟨countP_isClose_le hlast.last, hlast.last, fun hguarded => (session_answered hguarded).2.closed⟩

/-- A request whose body is empty. -/
def upgradeRequest : Bytes :=
  bytes "GET / HTTP/1.1\r\nHost: h\r\nUpgrade: websocket\r\nConnection: Upgrade\r\n" ++
  bytes "Sec-WebSocket-Version: 13\r\nSec-WebSocket-Key: AAAAAAAAAAAAAAAAAAAAAA==\r\n" ++
  bytes "Content-Length: 0\r\n\r\n"

/-- A server, until its handshake is over. -/
def established : List Move :=
  [.call .startAsServer, .call (.recvMessage [] upgradeRequest), .callbackReturn]

/-- A server that receives a close frame, answers it and reports the end. -/
theorem session_closeFrames_answered : ∃ (s : Session) (before : List Event),
    before ++ [.returned (.code .peerClosed)] = s.log ∧ .output (.frame 8 [0x88, 0]) ∈ before ∧
    before.countP Event.isClose = 1 ∧ s.log.countP Event.isClose ≤ 1 := by
  have hlog : ((Session.init (construct true)).run
      (established ++ [.call (.recvMessage [] [0x88, 0x80, 0, 0, 0, 0]), .callbackReturn])).any
      (fun s => s.log.dropLast ++ [.returned (.code .peerClosed)] = s.log ∧
        .output (.frame 8 [0x88, 0]) ∈ s.log.dropLast) = true := by
    decide +kernel
  obtain ⟨s, hrun, hlog⟩ := (Option.any_eq_true _ _).mp hlog
  obtain ⟨hlast, hmem⟩ := of_decide_eq_true hlog
  have hsteps := Session.run_of_eq hrun
  obtain ⟨hcount, -, hclosed⟩ := session_closeFrames hsteps
  obtain ⟨hguarded, -⟩ := run_installed hsteps rfl (by simp [established])
  exact ⟨s, _, hlast, hmem, hclosed hguarded _ ⟨[], by rw [hlast, List.append_nil]⟩, hcount⟩

/-- A server without a callback receives a close frame, and sends none. -/
theorem session_closeFrames_muted : ¬ ∀ (installed : Bool) (moves : List Move) (s : Session),
    Run Session.Steps (.init (construct installed)) moves s →
    ∀ before, before ++ [.returned (.code .peerClosed)] <+: s.log →
      before.countP Event.isClose = 1 := by
  intro h
  have hlog : ((Session.init (construct false)).run [.call .startAsServer,
      .call (.recvMessage [] upgradeRequest), .call (.recvMessage [] [0x88, 0x80, 0, 0, 0, 0])]).any
      (fun s => s.log = [.returned (.bool true), .returned (.code .connectionEstablished),
        .returned (.code .peerClosed)]) = true := by
    decide +kernel
  obtain ⟨s, hrun, hlog⟩ := (Option.any_eq_true _ _).mp hlog
  have hlog := of_decide_eq_true hlog
  have hone := h false _ s (Session.run_of_eq hrun)
    [.returned (.bool true), .returned (.code .connectionEstablished)] (by rw [hlog]; exact List.prefix_rfl)
  cases hone

end WebSocketProtocol

end Brickred
