import Brickred.Protocol.WebSocketBounds
import Brickred.Protocol.WebSocketPeer

/-!
# Messages in fragments

Between two calls a connected object remembers the opcode of the message that is open,
and keeps nothing of a message if none is. From there the fragments of a message, with
ping and pong frames between them, are put together again.
-/

namespace Brickred

open Incremental Transition

namespace WebSocketProtocol

variable {p q : WebSocketProtocol} {buffer rest date : Bytes} {c : Call} {k : Pending}
  {opcode : Nat} {op : Op} {limit : Nat}

/-! ## What is kept between two frames -/

/-- What is remembered is the opcode of a fragment, and without one nothing is kept of a
message, unless it is ready or the connection has ended. -/
def Whole (p : WebSocketProtocol) : Prop :=
  p.status ≠ .closed → p.status ≠ .pendingError →
    (∀ o ∈ p.lastOpCode, 0 < o ∧ o < 8) ∧
      (p.lastOpCode = none → p.status ≠ .finished → p.message = [])

theorem Whole.congr (h : Whole p) (hopcode : q.lastOpCode = p.lastOpCode)
    (hmessage : q.message = p.message)
    (hstatus : q.status = p.status ∨
      p.status ≠ .closed ∧ p.status ≠ .pendingError ∧ p.status ≠ .finished) : Whole q := by
  intro hclosed herror
  rw [hopcode, hmessage]
  obtain hstatus | ⟨h₁, h₂, h₃⟩ := hstatus
  · rw [hstatus] at hclosed herror ⊢
    exact h hclosed herror
  · obtain ⟨h₄, h₅⟩ := h h₁ h₂
    exact ⟨h₄, fun hnone _ => h₅ hnone h₃⟩

/-- A handshake is awaited. -/
def Waiting (p : WebSocketProtocol) : Prop :=
  p.status = .waitingHandshakeRequest ∨ p.status = .waitingHandshakeResponse

theorem Waiting.moved (h : Waiting p) :
    p.status ≠ .closed ∧ p.status ≠ .pendingError ∧ p.status ≠ .finished := by
  obtain h | h := h <;> simp [h]

/-- The object of a handler that has not failed. -/
def Handler.Keeps (P : WebSocketProtocol → Prop) : Handler → Prop
  | .ret .failed _ _ => True
  | .ret _ p _ => P p
  | .call c _ => P c.object

theorem whole_resume (h : Whole p) (hk : k = .accepted → Waiting p) :
    Whole (p.resume k).2 := by
  cases k with
  | sent | started | ponged => exact h
  | refused => exact fun _ herror => absurd rfl herror
  | closed => exact fun hclosed => absurd rfl hclosed
  | accepted => exact h.congr rfl rfl (.inr (hk rfl).moved)

theorem Sends.whole (h : Sends p k opcode c) (hp : Whole p) (hk : k ≠ .accepted) :
    Whole c.object := by
  cases h with
  | skipped => exact whole_resume hp fun h => absurd h hk
  | muted => exact whole_resume (hp.congr rfl rfl (.inl rfl)) fun h => absurd h hk
  | sent => exact hp.congr rfl rfl (.inl rfl)

/-- One frame. -/
theorem readFrame_whole {h : Handler} (hp : Whole p) (hstatus : p.status = .connected)
    (hread : p.readFrame buffer = some h) : h.Keeps Whole := by
  obtain ⟨hopcode, hmessage⟩ := hp (by simp [hstatus]) (by simp [hstatus])
  unfold readFrame at hread
  split at hread
  · cases hread
  · cases hread
    exact hp
  · cases hread
    trivial
  rename_i f hparse
  obtain ⟨hcontrol, -⟩ := parseFrame_bounds hparse
  change processFrame (p.copied f) f.fin f.opcode (buffer.drop f.size) = some h at hread
  have hlast : (p.copied f).lastOpCode = p.lastOpCode := lastOpCode_copied p f
  have hsame : 8 ≤ f.opcode → Whole (p.copied f) := by
    intro hge
    have hcopied : p.copied f = { p with controlMessage := p.controlMessage ++ f.payload } :=
      if_pos hge
    rw [hcopied]
    exact hp.congr rfl rfl (.inl rfl)
  have hcopied : (p.copied f).status = .connected := by rw [← taken_self, status_taken, hstatus]
  unfold processFrame at hread
  split at hread
  · rename_i hfin
    have hlt : f.opcode < 8 := by
      by_contra hge
      have := (hcontrol (by omega)).1
      simp [hfin] at this
    split at hread
    · rename_i hne
      split at hread
      · cases hread
        trivial
      · cases hread
        refine fun _ _ => ⟨fun o ho => ?_, nofun⟩
        cases ho
        exact ⟨Nat.pos_of_ne_zero hne, hlt⟩
    · split at hread
      · cases hread
        trivial
      · rename_i hopen
        cases hread
        refine fun _ _ => ⟨?_, fun hnone => absurd hnone hopen⟩
        rw [hlast]
        exact hopcode
  · dsimp only at hread
    split at hread
    · cases hread
      trivial
    rename_i o r hframe
    -- a fragment or a message, or a control frame
    have hcase : (o < 8 ∧ ∀ o ∈ r.lastOpCode, 0 < o ∧ o < 8) ∨ (8 ≤ o ∧ Whole r) := by
      split at hframe
      · obtain ⟨o', ho', he⟩ := Option.map_eq_some_iff.mp hframe
        cases he
        exact .inl ⟨(hopcode o (hlast ▸ ho')).2, nofun⟩
      · split at hframe
        · cases hframe
        · cases hframe
          by_cases hlt : f.opcode < 8
          · refine .inl ⟨hlt, ?_⟩
            rw [hlast]
            exact hopcode
          · exact .inr ⟨by omega, hsame (by omega)⟩
    split at hread
    · cases hread
      obtain ⟨-, hr⟩ | ⟨hge, -⟩ := hcase
      · exact fun _ _ => ⟨hr, fun _ hne => absurd rfl hne⟩
      · omega
    · have hr : ¬ o < 8 → Whole r := fun hge => by
        obtain ⟨hlt, -⟩ | ⟨-, hr⟩ := hcase
        · exact absurd hlt hge
        · exact hr
      split at hread
      · cases hread
        exact (sendCloseFrame_sends r .closed).whole (hr (by omega)) nofun
      · split at hread
        · obtain ⟨c, hc, rfl⟩ := Option.map_eq_some_iff.mp hread
          exact (sendPongFrame_sends hc).whole (hr (by omega)) nofun
        · split at hread
          · cases hread
            exact (hr (by omega)).congr rfl rfl (.inl rfl)
          · cases hread
            trivial

theorem recvLoop_whole {fuel : Nat} (hp : Whole p) (hstatus : p.status = .connected)
    (h : recvLoop date fuel p buffer = some (c, rest)) : Whole c.object := by
  induction fuel generalizing p buffer with
  | zero =>
    cases h
    exact hp
  | succ fuel ih =>
    have hhandle : p.handle date buffer = (p.readFrame buffer).map some := by
      rw [handle, hstatus]
    unfold recvLoop at h
    rw [hhandle] at h
    have hcases := readFrame_cases p buffer
    have hkeeps : ∀ h, p.readFrame buffer = some h → h.Keeps Whole :=
      fun _ => readFrame_whole hp hstatus
    generalize p.readFrame buffer = r at hcases h hkeeps
    cases hcases with
    | more =>
      cases h
      exact hp
    | malformed | failed =>
      cases h
      exact fun _ herror => absurd rfl herror
    | @fragment f last =>
      have hnext : (p.taken f last).status = .connected := status_taken.trans hstatus
      have hq : Whole (p.taken f last) := hkeeps _ rfl
      change ite _ _ (ite _ _ _) = some (c, rest) at h
      rw [if_neg (by rw [hnext]; decide), if_neg (by rw [hnext]; decide)] at h
      exact ih hq hnext h
    | data =>
      cases h
      exact hkeeps _ rfl
    | close | pong =>
      cases h
      exact hkeeps _ rfl
    | @ping f last =>
      cases hpong : (p.taken f last).sendPongFrame with
      | none =>
        rw [hpong] at h
        cases h
      | some c =>
        rw [hpong] at h hkeeps
        cases h
        exact hkeeps _ rfl

/-- What a call leaves that has been waiting for a handshake. -/
theorem Shaken.whole (hp : Whole p) (hwaiting : Waiting p) (h : Shaken p (some (c, rest))) :
    Whole c.object := by
  have hmoved := hwaiting.moved
  cases h with
  | more => exact hp.congr rfl rfl (.inl rfl)
  | failed => exact fun _ herror => absurd rfl herror
  | established => exact hp.congr rfl rfl (.inr hmoved)
  | answered hk =>
    unfold emit
    split
    · exact hp.congr rfl rfl (.inl rfl)
    · obtain rfl | rfl := hk
      · exact fun _ herror => absurd rfl herror
      · exact hp.congr rfl rfl (.inr hmoved)

theorem recvMessage_whole (hp : Whole p) (h : p.recvMessage date buffer = some (c, rest)) :
    Whole c.object := by
  have hidle : some (c, rest) = some (.returned (.code .error) p, buffer) → Whole c.object := by
    rintro ⟨⟩
    exact hp
  cases hstatus : p.status with
  | connected => exact recvLoop_whole hp hstatus h
  | waitingHandshakeRequest =>
    exact (h ▸ @recvMessage_request p buffer date hstatus).whole hp (.inl hstatus)
  | waitingHandshakeResponse =>
    exact (h ▸ @recvMessage_response p buffer date hstatus).whole hp (.inr hstatus)
  | detached => exact hidle (h.symm.trans (recvMessage_idle (.inl hstatus)))
  | finished => exact hidle (h.symm.trans (recvMessage_idle (.inr (.inl hstatus))))
  | closed => exact hidle (h.symm.trans (recvMessage_idle (.inr (.inr (.inl hstatus)))))
  | pendingError => exact hidle (h.symm.trans (recvMessage_idle (.inr (.inr (.inr hstatus)))))

theorem start_whole (hp : Whole p) (h : start p op = some c) : Whole c.object := by
  cases op with
  | setOutputCallback | setHandshakeHeader =>
    cases h
    exact hp.congr rfl rfl (.inl rfl)
  | setMessageMaxSize size =>
    cases h
    show Whole (p.setMessageMaxSize size)
    unfold setMessageMaxSize
    split
    · exact hp
    · exact hp.congr rfl rfl (.inl rfl)
  | startAsClient ip port random requestUri =>
    cases startAsClient_startsClient h with
    | refused => exact hp
    | started hdetached =>
      have hstarted : ∀ {q : WebSocketProtocol}, q.lastOpCode = p.lastOpCode →
          q.message = p.message → Whole q :=
        fun h₁ h₂ => hp.congr h₁ h₂ (.inr (by simp [hdetached]))
      unfold emit
      split
      · exact hstarted rfl rfl
      · exact hstarted rfl rfl
  | startAsServer =>
    cases h
    show Whole p.startAsServer.2
    unfold startAsServer
    split
    · exact hp
    · rename_i hdetached
      rw [not_not] at hdetached
      exact hp.congr rfl rfl (.inr (by simp [hdetached]))
  | recvMessage date buffer =>
    obtain ⟨⟨c', rest⟩, hr, rfl⟩ := Option.map_eq_some_iff.mp h
    exact recvMessage_whole hp hr
  | retrieveMessage =>
    cases h
    show Whole p.retrieveMessage.2
    unfold retrieveMessage
    split
    · exact hp
    · rename_i hfinished
      rw [not_not] at hfinished
      obtain ⟨hopcode, -⟩ := hp (by simp [hfinished]) (by simp [hfinished])
      exact fun _ _ => ⟨hopcode, fun _ _ => rfl⟩
  | sendMessage data =>
    cases h
    exact (sendMessage_sends p data).whole hp nofun
  | sendCloseFrame =>
    cases h
    exact (sendCloseFrame_sends p .sent).whole hp nofun
  | sendPingFrame =>
    cases h
    exact (sendPingFrame_sends p).whole hp nofun

/-- A handshake is answered by an object that awaits it. -/
theorem recvMessage_accepted {o : Output}
    (h : p.recvMessage date buffer = some (.output o .accepted q, rest)) : Waiting q := by
  have hsends : ∀ {r : WebSocketProtocol} {c : Call} {k : Pending} {opcode : Nat},
      Sends r k opcode c → c = .output o .accepted q → k = .accepted := by
    intro r c k opcode hs hc
    cases hs with
    | skipped | muted => cases hc
    | sent =>
      cases hc
      rfl
  have hanswered : ∀ {r}, Waiting p → Shaken p r → r = some (.output o .accepted q, rest) →
      Waiting q := by
    intro r hp hshaken hr
    cases hshaken with
    | fault | more | failed | established => cases hr
    | answered =>
      unfold emit at hr
      split at hr
      · cases hr
        exact hp
      · cases hr
  cases hstatus : p.status with
  | connected =>
    obtain ⟨r, b, -, hconcluded⟩ := @recvMessage_concluded p buffer date hstatus
    generalize p.recvMessage date buffer = x at hconcluded h
    cases hconcluded with
    | more | malformed | failed | data | pong => cases h
    | close =>
      cases hsends (sendCloseFrame_sends _ _) (Prod.mk.inj (Option.some.inj h)).1
    | ping =>
      obtain ⟨c, hc, h⟩ := Option.map_eq_some_iff.mp h
      cases hsends (sendPongFrame_sends hc) (Prod.mk.inj h).1
  | waitingHandshakeRequest =>
    exact hanswered (.inl hstatus) (recvMessage_request hstatus) h
  | waitingHandshakeResponse =>
    exact hanswered (.inr hstatus) (recvMessage_response hstatus) h
  | detached => cases h.symm.trans (recvMessage_idle (.inl hstatus))
  | finished => cases h.symm.trans (recvMessage_idle (.inr (.inl hstatus)))
  | closed => cases h.symm.trans (recvMessage_idle (.inr (.inr (.inl hstatus))))
  | pendingError => cases h.symm.trans (recvMessage_idle (.inr (.inr (.inr hstatus))))

/-- A call that does not receive goes on waiting. -/
theorem start_waiting (hop : ∀ date buffer, op ≠ .recvMessage date buffer) (hp : Waiting p)
    (h : start p op = some c) : Waiting c.object := by
  have hsends : ∀ {opcode}, Sends p .sent opcode c → Waiting c.object := by
    intro opcode hs
    cases hs with
    | skipped => exact hp
    | muted => exact hp
    | sent hconnected =>
      exact absurd hconnected (by obtain hp | hp := hp <;> simp [hp])
  cases op with
  | setOutputCallback | setHandshakeHeader =>
    cases h
    exact hp
  | setMessageMaxSize size =>
    cases h
    show Waiting (p.setMessageMaxSize size)
    unfold setMessageMaxSize
    split <;> exact hp
  | startAsClient ip port random requestUri =>
    cases startAsClient_startsClient h with
    | refused => exact hp
    | started hdetached => exact absurd hdetached (by obtain hp | hp := hp <;> simp [hp])
  | startAsServer =>
    cases h
    show Waiting p.startAsServer.2
    unfold startAsServer
    split
    · exact hp
    · exact .inl rfl
  | recvMessage date buffer => exact absurd rfl (hop date buffer)
  | retrieveMessage =>
    cases h
    show Waiting p.retrieveMessage.2
    unfold retrieveMessage
    split
    · exact hp
    · rename_i hfinished
      exact absurd hfinished (by obtain hp | hp := hp <;> simp [hp])
  | sendMessage data =>
    cases h
    exact hsends (sendMessage_sends p data)
  | sendCloseFrame =>
    cases h
    exact hsends (sendCloseFrame_sends p .sent)
  | sendPingFrame =>
    cases h
    exact hsends (sendPingFrame_sends p)

/-- What holds between two moves of a session. -/
structure Sound (s : Session) : Prop where
  whole : Whole s.object
  waiting : .accepted ∈ s.stack → Waiting s.object

theorem sound_step {s s' : Session} {m : Move} (hs : Sound s ∧ Safe limit s)
    (h : Guarded Unnested Session.Steps s m s') : Sound s' ∧ Safe limit s' := by
  obtain ⟨hsound, hsafe⟩ := hs
  refine ⟨?_, safe_step hsafe h⟩
  obtain ⟨⟨hnested, hmax⟩, hstep⟩ := h
  obtain ⟨op, c, rfl, hc, rfl⟩ | ⟨k, stack, -, hstack, rfl⟩ := Session.steps_cases hstep
  · have hwhole := start_whole hsound.whole hc
    by_cases hop : ∃ date buffer, op = .recvMessage date buffer
    · obtain ⟨date, buffer, rfl⟩ := hop
      have hempty := hnested date buffer rfl
      obtain ⟨⟨c', rest⟩, hr, rfl⟩ := Option.map_eq_some_iff.mp hc
      cases c' with
      | returned r q =>
        refine ⟨hwhole, fun hmem => ?_⟩
        rw [Session.after, hempty] at hmem
        cases hmem
      | output o k q =>
        refine ⟨hwhole, fun hmem => ?_⟩
        rw [Session.after, hempty, List.mem_singleton] at hmem
        exact recvMessage_accepted (hmem ▸ hr)
    · have hother : ∀ date buffer, op ≠ .recvMessage date buffer := fun date buffer h =>
        hop ⟨date, buffer, h⟩
      have huntouched := start_untouched hother (fun size h => hmax size (congrArg _ h)) hc
      cases c with
      | returned r q => exact ⟨hwhole, fun hmem => start_waiting hother (hsound.waiting hmem) hc⟩
      | output o k q =>
        refine ⟨hwhole, fun hmem => ?_⟩
        obtain rfl | hmem := List.mem_cons.mp hmem
        · obtain h | h := huntouched.pending o _ q rfl <;> cases h
        · exact start_waiting hother (hsound.waiting hmem) hc
  · have hbottom : AtBottom (k :: stack) := hstack ▸ hsafe.bottom
    have hwhole : Whole (s.object.resume k).2 :=
      whole_resume hsound.whole fun hk => hsound.waiting (hstack ▸ hk ▸ List.mem_cons_self)
    refine ⟨hwhole, fun hmem => ?_⟩
    have hwaiting := hsound.waiting (hstack ▸ List.mem_cons_of_mem _ hmem)
    cases k with
    | sent | started => exact hwaiting
    | refused | accepted | closed | ponged =>
      rw [hbottom.1 (by simp) (by simp)] at hmem
      cases hmem

/-- In every session without nested calls of `recvMessage`: between two calls a connected
object is ready for a frame, and has kept nothing of a message unless one is open. -/
theorem session_ready (hwhole : Whole p) (hmessage : p.message.length ≤ p.messageSizeMax)
    (hcontrol : p.controlMessage = []) {moves : List Move} {s : Session}
    (h : Run (Guarded Unnested Session.Steps) (.init p) moves s) (hrest : s.stack = [])
    (hstatus : s.object.status = .connected) :
    Ready s.object ∧ (s.object.lastOpCode = none → s.object.message = []) := by
  have hinit : Safe p.messageSizeMax (.init p) :=
    ⟨⟨rfl, hmessage, by rw [Session.init, hcontrol]; decide⟩, trivial, fun _ _ _ => hcontrol, by simp [Session.init]⟩
  obtain ⟨hsound, hsafe⟩ := h.invariant (I := fun s => Sound s ∧ Safe p.messageSizeMax s)
    sound_step ⟨⟨hwhole, by simp [Session.init]⟩, hinit⟩
  obtain ⟨hopcode, hnone⟩ := hsound.whole (by simp [hstatus]) (by simp [hstatus])
  have hclean : s.object.controlMessage = [] :=
    hsafe.clean (by simp [hrest]) (by simp [hstatus]) (by simp [hstatus])
  exact ⟨⟨hstatus, hclean, hopcode⟩, fun hopen => hnone hopen (by simp [hstatus])⟩

/-! ## A message in fragments -/

/-- A frame whose form a peer may choose: its reserved bits are clear, its length is in
the shortest form, and it is masked if a client sends it. -/
structure Frame.WellFormed (isClient : Bool) (f : Frame) : Prop where
  rsv : f.rsv = 0
  shortest : f.form.Shortest f.payload.length
  masked : f.key.isSome = !isClient

/-- The frames of a message of the type `type`, cut into fragments with ping and pong
frames between them; `opened` says whether there has been a fragment. -/
inductive Fragmented (type : Fin 16) : Bool → List Frame → Prop where
  | last {opened : Bool} {f : Frame} : f.fin = true → f.opcode = (if opened then 0 else type) →
      Fragmented type opened [f]
  | fragment {opened : Bool} {f : Frame} {fs : List Frame} : f.fin = false →
      f.opcode = (if opened then 0 else type) → Fragmented type true fs →
      Fragmented type opened (f :: fs)
  | control {opened : Bool} {f : Frame} {fs : List Frame} : f.fin = true →
      f.opcode = 9 ∨ f.opcode = 10 → f.payload.length ≤ 125 → Fragmented type opened fs →
      Fragmented type opened (f :: fs)

/-- What the fragments make. -/
def reassembled (fs : List Frame) : Bytes :=
  (fs.filter fun f => f.opcode.val < 8).flatMap Frame.payload

/-- What is reported of a control frame. -/
def Frame.notice (f : Frame) : Option WebSocketRetCode :=
  if f.opcode = 9 then some .pingFrame else if f.opcode = 10 then some .pongFrame else none

/-- What is returned and retrieved, without what is sent. -/
def Heard.reported : Heard → Bool
  | .sent _ => false
  | _ => true

/-- The control frames, in order. -/
def notices (fs : List Frame) : List Heard := (fs.filterMap Frame.notice).map .code

/-- What is remembered of the message that is open. -/
structure Progressed (type : Fin 16) (opened : Bool) (p : WebSocketProtocol) : Prop where
  ready : Ready p
  lastOpCode : p.lastOpCode = if opened then some type.val else none

variable {f : Frame} {fs : List Frame} {type : Fin 16} {opened : Bool}

theorem reassembled_cons : reassembled (f :: fs) =
    (if f.opcode.val < 8 then f.payload else []) ++ reassembled fs := by
  unfold reassembled
  rw [List.filter_cons]
  by_cases h : f.opcode.val < 8
  · rw [if_pos (decide_eq_true h), if_pos h, List.flatMap_cons]
  · rw [if_neg (by simpa using h), if_neg h]
    rfl

theorem notices_cons : notices (f :: fs) = (f.notice.toList.map .code) ++ notices fs := by
  unfold notices
  rw [List.filterMap_cons]
  cases f.notice <;> rfl

theorem notice_data (h : f.opcode.val < 8) : f.notice = none := by
  have h₁ : f.opcode ≠ 9 := fun he => by simp [he] at h
  have h₂ : f.opcode ≠ 10 := fun he => by simp [he] at h
  rw [Frame.notice, if_neg h₁, if_neg h₂]

theorem Frame.WellFormed.legal (h : f.WellFormed p.isClient)
    (hcontrol : 8 ≤ f.opcode.val → f.fin = true ∧ f.payload.length ≤ 125)
    (hfits : f.opcode.val < 8 → p.message.length + f.payload.length ≤ p.messageSizeMax) :
    f.Legal p.isClient p.messageSizeMax p.message.length :=
  ⟨h.rsv, hcontrol, h.shortest, hfits, h.masked⟩

/-- A ping or pong frame between two fragments. -/
theorem step_notice (hp : Progressed type opened p) (hwell : f.WellFormed p.isClient)
    (hfin : f.fin = true) (hcontrol : f.opcode = 9 ∨ f.opcode = 10)
    (hsize : f.payload.length ≤ 125) (rest : Bytes) :
    ∃ q out, step p (f.encode ++ rest) = .next q rest out ∧ Progressed type opened q ∧ Like p q ∧
      q.message = p.message ∧ out.filter Heard.reported = f.notice.toList.map .code := by
  have hge : 8 ≤ f.opcode.val := by
    obtain h | h := hcontrol <;> simp [h]
  have hlegal := hwell.legal (fun _ => ⟨hfin, hsize⟩) fun hlt => absurd hge (by omega)
  have hstep := step_control hlegal hge hp.ready.control rest
  obtain hping | hpong := hcontrol
  · have hval : f.opcode.val = 9 := by rw [hping]; rfl
    obtain ⟨c, hc⟩ := exists_sendPongFrame (p := { p with controlMessage := f.payload }) hsize
    obtain ⟨sent, random, closeFrameSent, hfinish⟩ := (sendPongFrame_sends hc).finish
    rw [if_neg (by omega), if_pos hval, hc, Option.map_some, ofHandler, ofCall, hfinish] at hstep
    refine ⟨_, _, hstep, ⟨⟨hp.ready.connected, rfl, hp.ready.opcode⟩, hp.lastOpCode⟩, ⟨rfl, rfl⟩,
      rfl, ?_⟩
    rw [Frame.notice, if_pos hping, List.filter_append]
    have hnone : (sent.map Heard.sent).filter Heard.reported = [] :=
      List.filter_eq_nil_iff.mpr fun x hx => by
        obtain ⟨o, -, rfl⟩ := List.mem_map.mp hx
        exact Bool.false_ne_true
    rw [hnone]
    rfl
  · have hval : f.opcode.val = 10 := by rw [hpong]; rfl
    rw [if_neg (by omega), if_neg (by omega), if_pos hval] at hstep
    refine ⟨_, _, hstep, ⟨⟨hp.ready.connected, rfl, hp.ready.opcode⟩, hp.lastOpCode⟩, ⟨rfl, rfl⟩,
      rfl, ?_⟩
    rw [Frame.notice, if_neg (by simp [hpong]), if_pos hpong]
    rfl

/-- A fragment that is not the last one. -/
theorem step_fragment (hp : Progressed type opened p) (htype : type = 1 ∨ type = 2)
    (hlegal : f.Legal p.isClient p.messageSizeMax p.message.length) (hfin : f.fin = false)
    (hopcode : f.opcode = if opened then 0 else type) (rest : Bytes) :
    ∃ q, step p (f.encode ++ rest) = .next q rest [] ∧ Progressed type true q ∧ Like p q ∧
      q.message = p.message ++ f.payload := by
  have hlast := hp.lastOpCode
  have htype' : type.val = 1 ∨ type.val = 2 := by
    obtain rfl | rfl := htype
    · exact .inl rfl
    · exact .inr rfl
  cases opened with
  | false =>
    have hval : f.opcode.val = type.val := congrArg Fin.val hopcode
    refine ⟨_, step_first hlegal hfin (by omega) (by omega) hlast hp.ready.connected rest, ?_,
      ⟨rfl, rfl⟩, rfl⟩
    refine ⟨⟨hp.ready.connected, hp.ready.control, ?_⟩, congrArg some hval⟩
    rintro o ⟨⟩
    omega
  | true =>
    have hval : f.opcode.val = 0 := congrArg Fin.val hopcode
    refine ⟨_, step_middle hlegal hfin hval (by rw [hlast]; exact nofun) hp.ready.connected rest,
      ?_, ⟨rfl, rfl⟩, rfl⟩
    exact ⟨⟨hp.ready.connected, hp.ready.control, hp.ready.opcode⟩, hlast⟩

/-- The last fragment. -/
theorem step_final (hp : Progressed type opened p) (htype : type = 1 ∨ type = 2)
    (hlegal : f.Legal p.isClient p.messageSizeMax p.message.length) (hfin : f.fin = true)
    (hopcode : f.opcode = if opened then 0 else type) (rest : Bytes) :
    ∃ q, step p (f.encode ++ rest) =
        .next q rest [.code .messageReady, .message (p.message ++ f.payload)] ∧
      Ready q ∧ q.lastOpCode = none ∧ q.message = [] ∧ Like p q := by
  have hlast := hp.lastOpCode
  have htype' : type.val = 1 ∨ type.val = 2 := by
    obtain rfl | rfl := htype
    · exact .inl rfl
    · exact .inr rfl
  cases opened with
  | false =>
    have hval : f.opcode.val = type.val := congrArg Fin.val hopcode
    exact ⟨_, step_data hlegal hfin (by omega) hlast hp.ready.connected rest,
      ⟨hp.ready.connected, hp.ready.control, hp.ready.opcode⟩, hlast, rfl, ⟨rfl, rfl⟩⟩
  | true =>
    have hval : f.opcode.val = 0 := congrArg Fin.val hopcode
    exact ⟨_, step_last hlegal hfin hval hlast htype' hp.ready.connected rest,
      ⟨hp.ready.connected, hp.ready.control, nofun⟩, rfl, rfl, ⟨rfl, rfl⟩⟩

/-- Everything up to the last fragment, and the last fragment. -/
theorem steps_fragmented (hfs : Fragmented type opened fs) (htype : type = 1 ∨ type = 2)
    (hp : Progressed type opened p) (hwell : ∀ f ∈ fs, f.WellFormed p.isClient)
    (hsize : p.message.length + (reassembled fs).length ≤ p.messageSizeMax) :
    ∃ init last q out q', fs = init ++ [last] ∧ Steps step p (wire init) q [] out ∧
      out.filter Heard.reported = notices fs ∧
      last.Legal q.isClient q.messageSizeMax q.message.length ∧
      step q last.encode =
        .next q' [] [.code .messageReady, .message (p.message ++ reassembled fs)] ∧
      Ready q' ∧ q'.lastOpCode = none ∧ q'.message = [] := by
  have hdata : ∀ {f : Frame} {opened : Bool}, f.opcode = (if opened then 0 else type) →
      f.opcode.val < 8 := by
    intro f opened hopcode
    have hval := congrArg Fin.val hopcode
    obtain rfl | rfl := htype <;> cases opened <;> simp at hval <;> omega
  induction hfs generalizing p with
  | @last opened f hfin hopcode =>
    have hlt := hdata hopcode
    have hmessage : reassembled [f] = f.payload := by
      rw [reassembled_cons, if_pos hlt]
      exact List.append_nil _
    rw [hmessage] at hsize ⊢
    have hlegal := (hwell f List.mem_cons_self).legal (fun hge => by omega) fun _ => hsize
    obtain ⟨q', hstep, hready, hopen, hempty, -⟩ := step_final hp htype hlegal hfin hopcode []
    rw [List.append_nil] at hstep
    refine ⟨[], f, p, [], q', rfl, .refl, ?_, hlegal, hstep, hready, hopen, hempty⟩
    rw [notices_cons, notice_data hlt]
    rfl
  | @fragment opened f fs hfin hopcode hfs ih =>
    have hlt := hdata hopcode
    obtain ⟨hf, hwell'⟩ := List.forall_mem_cons.mp hwell
    rw [reassembled_cons, if_pos hlt, List.length_append] at hsize
    have hlegal := hf.legal (fun hge => by omega) fun _ => by omega
    obtain ⟨q₁, hstep, hq₁, hlike, hmessage⟩ := step_fragment hp htype hlegal hfin hopcode []
    rw [List.append_nil] at hstep
    have hsize₁ : q₁.message.length + (reassembled fs).length ≤ q₁.messageSizeMax := by
      rw [hmessage, hlike.messageSizeMax, List.length_append]
      omega
    obtain ⟨init, last, q, out, q', rfl, hsteps, hnotices, hlegal', hlast, hend⟩ :=
      ih hq₁ (by rwa [hlike.isClient]) hsize₁
    refine ⟨f :: init, last, q, [] ++ out, q', rfl, ?_, ?_, hlegal', ?_, hend⟩
    · exact .next (step_stable.next trivial hstep) hsteps
    · rw [notices_cons, notice_data hlt]
      exact hnotices
    · rw [hlast, hmessage, List.append_assoc, reassembled_cons, if_pos hlt]
  | @control opened f fs hfin hopcode hpayload hfs ih =>
    have hge : 8 ≤ f.opcode.val := by
      obtain h | h := hopcode <;> simp [h]
    obtain ⟨hf, hwell'⟩ := List.forall_mem_cons.mp hwell
    have hskip : reassembled (f :: fs) = reassembled fs := by
      rw [reassembled_cons, if_neg (by omega), List.nil_append]
    obtain ⟨q₁, out₁, hstep, hq₁, hlike, hmessage, hout₁⟩ :=
      step_notice hp hf hfin hopcode hpayload []
    rw [List.append_nil] at hstep
    have hsize₁ : q₁.message.length + (reassembled fs).length ≤ q₁.messageSizeMax := by
      rw [hmessage, hlike.messageSizeMax, ← hskip]
      exact hsize
    obtain ⟨init, last, q, out, q', rfl, hsteps, hnotices, hlegal', hlast, hend⟩ :=
      ih hq₁ (by rwa [hlike.isClient]) hsize₁
    refine ⟨f :: init, last, q, out₁ ++ out, q', rfl, ?_, ?_, hlegal', ?_, hend⟩
    · exact .next (step_stable.next trivial hstep) hsteps
    · rw [List.filter_append, hout₁, hnotices, notices_cons]
    · rw [hlast, hmessage, hskip]

/-- **Reassembly**: in a session without nested calls of `recvMessage`, an object that is
connected, with no message open, is sent a message of at most its limit in any number of
fragments, with ping and pong frames between them, in any pieces. Each control frame is
reported, in order; when the last byte has come, and not before, the message is ready,
it is what the fragments make, and no message is open. -/
theorem session_reassembles (hwhole : Whole p) (hmessage : p.message.length ≤ p.messageSizeMax)
    (hcontrol : p.controlMessage = []) {moves : List Move} {s : Session}
    (h : Run (Guarded Unnested Session.Steps) (.init p) moves s) (hrest : s.stack = [])
    (hstatus : s.object.status = .connected) (hopen : s.object.lastOpCode = none)
    (htype : type = 1 ∨ type = 2) (hfs : Fragmented type false fs)
    (hwell : ∀ f ∈ fs, f.WellFormed s.object.isClient)
    (hsize : (reassembled fs).length ≤ s.object.messageSizeMax) (date : Bytes)
    (pieces : List Bytes) :
    (pieces.flatten = wire fs → ∃ heard q, feed date s.object [] pieces = some (heard, q, some []) ∧
      heard.filter Heard.reported =
        notices fs ++ [.code .messageReady, .message (reassembled fs)] ∧
      q.status = .connected ∧ q.lastOpCode = none ∧ q.message = []) ∧
    (∀ x ≠ [], pieces.flatten ++ x = wire fs →
      ∃ heard q rest, feed date s.object [] pieces = some (heard, q, some rest) ∧
        heard.filter Heard.reported <+: notices fs) := by
  obtain ⟨hready, hnone⟩ := session_ready hwhole hmessage hcontrol h hrest hstatus
  have hempty := hnone hopen
  obtain ⟨init, last, q, out, q', rfl, hsteps, hnotices, hlegal, hlast, hready', hopen',
    hempty'⟩ := steps_fragmented hfs htype ⟨hready, hopen⟩ hwell (by simpa [hempty] using hsize)
  have hwire : wire (init ++ [last]) = wire init ++ last.encode := by
    rw [wire_append, wire_cons]
    exact congrArg _ (List.append_nil _)
  rw [hwire]
  have hinit : Steps step s.object (wire init ++ last.encode) q last.encode out := by
    have := hsteps.append step_stable trivial last.encode
    rwa [List.nil_append] at this
  refine ⟨fun hall => ?_, fun x hx hpart => ?_⟩
  · have hwhole := hinit.trans (.one hlast)
    rw [← hall] at hwhole
    refine ⟨_, q', feed_waiting hstatus hwhole, ?_, hready'.connected, hopen', hempty'⟩
    rw [hempty, List.nil_append, List.filter_append, hnotices]
    rfl
  · obtain ⟨heard, r, hruns, hresult⟩ := feed_runs date hstatus pieces
    obtain ⟨y, hy, hz⟩ | ⟨y, hy, hz⟩ := List.append_eq_append_iff.mp hpart
    · -- part of the frames before the last one
      have hall := hsteps.runs (.wait (step_nil q))
      rw [List.append_nil, hy] at hall
      cases r with
      | halted e q₁ => cases (hall.unique (hruns.append_halted step_stable trivial y)).2
      | waiting q₁ rest =>
        refine ⟨heard, q₁, rest, hresult, ?_⟩
        rw [← hnotices]
        exact (hruns.isPrefix step_stable trivial hall).filter _
    · -- part of the last one
      have hwait : step q y = .wait := step_part hlegal hz.symm hx
      have hpieces := hsteps.append step_stable trivial y
      rw [List.nil_append, ← hy] at hpieces
      have hall := hpieces.runs (.wait hwait)
      rw [List.append_nil] at hall
      obtain ⟨rfl, rfl⟩ := hruns.unique hall
      refine ⟨heard, q, y, hresult, ?_⟩
      rw [hnotices]

/-- A server that is sent a message in two fragments, with a ping frame between them. -/
theorem session_reassembles_two :
    let p : WebSocketProtocol := { construct true with status := .connected }
    let fs : List Frame :=
      [⟨false, 0, 1, .short, some [1, 2, 3, 4], [0x68], by decide, by decide⟩,
        ⟨true, 0, 9, .short, some [0, 0, 0, 0], [], by decide, by decide⟩,
        ⟨true, 0, 0, .short, some [4, 3, 2, 1], [0x69], by decide, by decide⟩]
    ∃ heard q, feed [] p [] [wire fs] = some (heard, q, some []) ∧
      heard.filter Heard.reported =
        [.code .pingFrame, .code .messageReady, .message [0x68, 0x69]] ∧
      q.status = .connected ∧ q.lastOpCode = none ∧ q.message = [] := by
  intro p fs
  have hwhole : Whole p := fun _ _ => ⟨nofun, fun _ _ => rfl⟩
  have hfs : Fragmented 1 false fs :=
    .fragment rfl rfl (.control rfl (.inl rfl) (by decide) (.last rfl rfl))
  have hwell : ∀ f ∈ fs, f.WellFormed p.isClient := by
    intro f hf
    obtain rfl | rfl | rfl : f = _ ∨ f = _ ∨ f = _ := by simpa [fs] using hf
    · exact ⟨rfl, trivial, rfl⟩
    · exact ⟨rfl, trivial, rfl⟩
    · exact ⟨rfl, trivial, rfl⟩
  exact (session_reassembles hwhole (by decide) rfl .nil rfl rfl rfl (.inl rfl) hfs hwell
    (by decide) [] [wire fs]).1 (List.append_nil _)

end WebSocketProtocol

end Brickred
