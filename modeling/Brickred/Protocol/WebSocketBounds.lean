import Brickred.Protocol.WebSocketSession

/-!
# What is kept of a hostile stream

While `recvMessage` is not called inside the output callback, the message stays below
its limit and the payload of a control frame below 126 bytes, so that nothing that is
copied or read is outside its array.
-/

namespace Brickred

open Transition

namespace WebSocketProtocol

variable {p q : WebSocketProtocol} {buffer rest date : Bytes} {c : Call} {k : Pending}
  {opcode limit : Nat} {op : Op} {f : Incoming} {last : Option Nat}

/-- What is kept of messages and control frames is bounded. -/
structure Bounded (limit : Nat) (p : WebSocketProtocol) : Prop where
  messageSizeMax : p.messageSizeMax = limit
  message : p.message.length ≤ limit
  control : p.controlMessage.length ≤ 125

/-- The frame that `readFrame` has looked at. -/
theorem parseFrame_bounds (h : p.parseFrame buffer = some (.ready f)) :
    (8 ≤ f.opcode → f.fin = true ∧ f.payload.length ≤ 125) ∧
    (f.opcode < 8 → p.message.length + f.payload.length ≤ p.messageSizeMax) := by
  obtain ⟨part, hpart, hok⟩ := (parseFrame_reads p buffer []).isSome
  obtain ⟨-, -, -, hcontrol, hdata⟩ := hok f (Option.some.inj (hpart.symm.trans h))
  exact ⟨hcontrol, hdata⟩

/-- A frame is copied within the bounds if no control frame has been kept. -/
theorem bounded_taken (hp : Bounded limit p) (hclean : p.controlMessage = [])
    (h : p.parseFrame buffer = some (.ready f)) : Bounded limit (p.taken f last) := by
  obtain ⟨hcontrol, hdata⟩ := parseFrame_bounds h
  refine ⟨messageSizeMax_taken.trans hp.messageSizeMax, ?_, ?_⟩
  · rw [message_taken]
    split
    · exact hp.message
    · rw [List.length_append, ← hp.messageSizeMax]
      exact hdata (by omega)
  · rw [controlMessage_taken, hclean]
    split
    · rename_i hge
      exact (hcontrol hge).2
    · exact Nat.zero_le _

theorem clean_taken (hclean : p.controlMessage = []) (hlt : f.opcode < 8) :
    (p.taken f last).controlMessage = [] := by
  rw [controlMessage_taken, if_neg (by omega), hclean]

/-- A fragment is no control frame. -/
theorem opcode_lt (h : p.parseFrame buffer = some (.ready f)) (hfin : f.fin = false) :
    f.opcode < 8 := by
  by_contra hge
  have := ((parseFrame_bounds h).1 (by omega)).1
  simp [hfin] at this

theorem Fragments.bounded (h : Fragments p buffer q rest) (hp : Bounded limit p)
    (hclean : p.controlMessage = []) : Bounded limit q ∧ q.controlMessage = [] := by
  induction h with
  | refl => exact ⟨hp, hclean⟩
  | next hparse hfin _ ih =>
    exact ih (bounded_taken hp hclean hparse) (clean_taken hclean (opcode_lt hparse hfin))

theorem Sends.bounded (hp : Bounded limit p) (h : Sends p k opcode c) :
    Bounded limit c.object := by
  have hgo : ∀ {q : WebSocketProtocol}, Bounded limit q → Bounded limit (q.resume k).2 := by
    intro q hq
    cases k with
    | sent | started | refused | accepted => exact ⟨hq.1, hq.2, hq.3⟩
    | closed => exact ⟨hq.1, Nat.zero_le _, Nat.zero_le _⟩
    | ponged => exact ⟨hq.1, hq.2, Nat.zero_le _⟩
  cases h with
  | skipped => exact hgo hp
  | muted => exact hgo ⟨hp.1, hp.2, hp.3⟩
  | sent => exact ⟨hp.1, hp.2, hp.3⟩

/-! ## One call -/

/-- Nothing is kept of a control frame, unless the connection has ended. -/
def IsClean (p : WebSocketProtocol) : Prop :=
  p.status ≠ .closed → p.status ≠ .pendingError → p.controlMessage = []

/-- Which calls are left with what is kept of a control frame. -/
def Holds (k : Pending) : Prop := k = .closed ∨ k = .ponged

/-- What a call leaves that is made while no other is in the callback. -/
structure Settled (limit : Nat) (c : Call) : Prop where
  bounded : Bounded limit c.object
  clean : (∀ o k q, c = .output o k q → ¬ Holds k) → IsClean c.object
  accepted : ∀ o q, c = .output o .accepted q → q.controlMessage = []

theorem settled_returned {r : Result} (hq : Bounded limit q) (hclean : IsClean q) :
    Settled limit (.returned r q) where
  bounded := hq
  clean _ := hclean
  accepted _ _ h := by cases h

theorem Sends.settled (hp : Bounded limit p) (hk : Holds k) (h : Sends p k opcode c) :
    Settled limit c := by
  refine ⟨h.bounded hp, fun hholds => ?_, fun o q hc => ?_⟩
  · have hgo : ∀ q : WebSocketProtocol, (q.resume k).2.controlMessage = [] := by
      intro q
      obtain rfl | rfl := hk
      · rfl
      · rfl
    cases h with
    | skipped => exact fun _ _ => hgo p
    | muted => exact fun _ _ => hgo _
    | sent => exact absurd hk (hholds _ _ _ rfl)
  · cases h with
    | skipped | muted => cases hc
    | sent =>
      cases hc
      obtain hk | hk := hk <;> cases hk

theorem Concluded.settled (hp : Bounded limit p) (hclean : p.controlMessage = [])
    (h : Concluded p buffer (some (c, rest))) : Settled limit c := by
  have hpending : ∀ {q : WebSocketProtocol}, Bounded limit q →
      Settled limit (.returned (.code .error) { q with status := .pendingError }) :=
    fun hq => settled_returned ⟨hq.1, hq.2, hq.3⟩ fun _ h => absurd rfl h
  generalize hr : some (c, rest) = r at h
  cases h with
  | more =>
    cases hr
    exact settled_returned hp fun _ _ => hclean
  | malformed =>
    cases hr
    exact hpending hp
  | failed hparse =>
    cases hr
    exact hpending (bounded_taken hp hclean hparse)
  | @data f last hparse _ hlt =>
    cases hr
    have hq : Bounded limit (p.taken f last) := bounded_taken hp hclean hparse
    have hempty : (p.taken f last).controlMessage = [] := clean_taken hclean hlt
    exact settled_returned ⟨hq.1, hq.2, hq.3⟩ fun _ _ => hempty
  | close hparse =>
    cases hr
    exact (sendCloseFrame_sends _ _).settled (bounded_taken hp hclean hparse) (.inl rfl)
  | ping hparse =>
    obtain ⟨c, hc, hr⟩ := Option.map_eq_some_iff.mp hr.symm
    cases hr
    exact (sendPongFrame_sends hc).settled (bounded_taken hp hclean hparse) (.inr rfl)
  | @pong f last hparse =>
    cases hr
    have hq : Bounded limit (p.taken f last) := bounded_taken hp hclean hparse
    exact settled_returned ⟨hq.1, hq.2, Nat.zero_le _⟩ fun _ _ => rfl

theorem Shaken.settled (hp : Bounded limit p) (hclean : p.controlMessage = [])
    (h : Shaken p (some (c, rest))) : Settled limit c := by
  cases h with
  | more | established => exact settled_returned ⟨hp.1, hp.2, hp.3⟩ fun _ _ => hclean
  | failed => exact settled_returned ⟨hp.1, hp.2, hp.3⟩ fun _ h => absurd rfl h
  | answered hk =>
    unfold emit
    split
    · exact ⟨⟨hp.1, hp.2, hp.3⟩, fun _ _ _ => hclean, fun o q hc => by
        cases hc
        exact hclean⟩
    · obtain rfl | rfl := hk
      · exact settled_returned ⟨hp.1, hp.2, hp.3⟩ fun _ h => absurd rfl h
      · exact settled_returned ⟨hp.1, hp.2, hp.3⟩ fun _ _ => hclean

theorem recvMessage_settled (hp : Bounded limit p) (hclean : IsClean p)
    (h : p.recvMessage date buffer = some (c, rest)) : Settled limit c := by
  have hidle : some (c, rest) = some (.returned (.code .error) p, buffer) → Settled limit c := by
    rintro ⟨⟩
    exact settled_returned hp hclean
  cases hstatus : p.status with
  | connected =>
    have hempty : p.controlMessage = [] := hclean (by simp [hstatus]) (by simp [hstatus])
    obtain ⟨q, b, hfragments, hconcluded⟩ := @recvMessage_concluded p buffer date hstatus
    obtain ⟨hq, hqclean⟩ := hfragments.bounded hp hempty
    rw [h] at hconcluded
    exact hconcluded.settled hq hqclean
  | waitingHandshakeRequest =>
    exact (h ▸ @recvMessage_request p buffer date hstatus).settled hp
      (hclean (by simp [hstatus]) (by simp [hstatus]))
  | waitingHandshakeResponse =>
    exact (h ▸ @recvMessage_response p buffer date hstatus).settled hp
      (hclean (by simp [hstatus]) (by simp [hstatus]))
  | detached => exact hidle (h.symm.trans (recvMessage_idle (.inl hstatus)))
  | finished => exact hidle (h.symm.trans (recvMessage_idle (.inr (.inl hstatus))))
  | closed => exact hidle (h.symm.trans (recvMessage_idle (.inr (.inr (.inl hstatus)))))
  | pendingError => exact hidle (h.symm.trans (recvMessage_idle (.inr (.inr (.inr hstatus)))))

/-- What a call leaves that does not receive and does not move the limit. -/
structure Untouched (p : WebSocketProtocol) (c : Call) : Prop where
  bounded : ∀ limit, Bounded limit p → Bounded limit c.object
  control : c.object.controlMessage = p.controlMessage
  clean : IsClean p → IsClean c.object
  pending : ∀ o k q, c = .output o k q → k = .sent ∨ k = .started

theorem untouched_returned {r : Result} (hcontrol : q.controlMessage = p.controlMessage)
    (hmax : q.messageSizeMax = p.messageSizeMax) (hmessage : q.message.length ≤ p.message.length)
    (hstatus : p.status = .closed ∨ p.status = .pendingError → q.status = p.status) :
    Untouched p (.returned r q) where
  bounded limit hp :=
    ⟨hmax.trans hp.messageSizeMax, hmessage.trans hp.message, by
      show q.controlMessage.length ≤ 125
      rw [hcontrol]
      exact hp.control⟩
  control := hcontrol
  clean hp hclosed herror := by
    refine hcontrol.trans (hp (fun h => hclosed ?_) fun h => herror ?_)
    · exact (hstatus (.inl h)).trans h
    · exact (hstatus (.inr h)).trans h
  pending _ _ _ h := by cases h

theorem Sends.untouched (h : Sends p .sent opcode c) : Untouched p c := by
  cases h with
  | skipped => exact untouched_returned rfl rfl (Nat.le_refl _) fun _ => rfl
  | muted => exact untouched_returned rfl rfl (Nat.le_refl _) fun _ => rfl
  | sent =>
    refine ⟨fun _ hp => ⟨hp.1, hp.2, hp.3⟩, rfl, id, fun o k q hc => ?_⟩
    cases hc
    exact .inl rfl

theorem start_untouched (hop : ∀ date buffer, op ≠ .recvMessage date buffer)
    (hmax : ∀ size, op ≠ .setMessageMaxSize size) (h : start p op = some c) : Untouched p c := by
  cases op with
  | setOutputCallback | setHandshakeHeader =>
    cases h
    exact untouched_returned rfl rfl (Nat.le_refl _) fun _ => rfl
  | setMessageMaxSize size => exact absurd rfl (hmax size)
  | startAsClient ip port random requestUri =>
    cases startAsClient_startsClient h with
    | refused => exact untouched_returned rfl rfl (Nat.le_refl _) fun _ => rfl
    | started hdetached =>
      unfold emit
      split
      · refine ⟨fun _ hp => ⟨hp.1, hp.2, hp.3⟩, rfl, fun hp _ _ => ?_, fun o k q hc => ?_⟩
        · exact hp (by simp [hdetached]) (by simp [hdetached])
        · cases hc
          exact .inr rfl
      · exact untouched_returned rfl rfl (Nat.le_refl _) (by simp [hdetached])
  | startAsServer =>
    cases h
    unfold startAsServer
    split
    · exact untouched_returned rfl rfl (Nat.le_refl _) fun _ => rfl
    · rename_i hstatus
      rw [not_not] at hstatus
      exact untouched_returned rfl rfl (Nat.le_refl _) (by simp [hstatus])
  | recvMessage date buffer => exact absurd rfl (hop date buffer)
  | retrieveMessage =>
    cases h
    unfold retrieveMessage
    split
    · exact untouched_returned rfl rfl (Nat.le_refl _) fun _ => rfl
    · rename_i hstatus
      rw [not_not] at hstatus
      exact untouched_returned rfl rfl (Nat.zero_le _) (by simp [hstatus])
  | sendMessage data =>
    cases h
    exact (sendMessage_sends p data).untouched
  | sendCloseFrame =>
    cases h
    exact (sendCloseFrame_sends p .sent).untouched
  | sendPingFrame =>
    cases h
    exact (sendPingFrame_sends p).untouched

/-! ## In every session -/

/-- `recvMessage` is not called inside the output callback, and the limit is not
moved. -/
def Unnested (s : Session) (m : Move) : Prop :=
  (∀ date buffer, m = .call (.recvMessage date buffer) → s.stack = []) ∧
  ∀ size, m ≠ .call (.setMessageMaxSize size)

/-- Only the outermost call receives. -/
def AtBottom : List Pending → Prop
  | [] => True
  | k :: stack => (k ≠ .sent → k ≠ .started → stack = []) ∧ AtBottom stack

/-- What holds between two moves. -/
structure Safe (limit : Nat) (s : Session) : Prop where
  bounded : Bounded limit s.object
  bottom : AtBottom s.stack
  clean : (∀ k ∈ s.stack, ¬ Holds k) → IsClean s.object
  accepted : .accepted ∈ s.stack → s.object.controlMessage = []

/-- A call that receives. -/
theorem Safe.settled {s : Session} (hstack : s.stack = []) (h : Settled limit c) :
    Safe limit (s.after c) := by
  cases c with
  | returned r q =>
    refine ⟨h.bounded, ?_, fun _ => h.clean fun _ _ _ hc => (by cases hc), fun hmem => ?_⟩
    · show AtBottom s.stack
      rw [hstack]
      trivial
    · rw [Session.after, hstack] at hmem
      cases hmem
  | output o k q =>
    refine ⟨h.bounded, ?_, fun hholds => h.clean fun o' k' q' hc => ?_, fun hmem => ?_⟩
    · show AtBottom (k :: s.stack)
      rw [hstack]
      exact ⟨fun _ _ => rfl, trivial⟩
    · cases hc
      exact hholds k List.mem_cons_self
    · rw [Session.after, hstack, List.mem_singleton] at hmem
      exact h.accepted o q (by rw [hmem])

/-- A call that does not. -/
theorem Safe.untouched {s : Session} (hs : Safe limit s) (h : Untouched s.object c) :
    Safe limit (s.after c) := by
  have hbounded := h.bounded limit hs.bounded
  have hcontrol := h.control
  have hclean := h.clean
  cases c with
  | returned r q =>
    exact ⟨hbounded, hs.bottom, fun hholds => hclean (hs.clean hholds),
      fun hmem => hcontrol.trans (hs.accepted hmem)⟩
  | output o k q =>
    have hk := h.pending o k q rfl
    refine ⟨hbounded, ⟨fun h₁ h₂ => ?_, hs.bottom⟩, fun hholds => hclean (hs.clean ?_),
      fun hmem => hcontrol.trans (hs.accepted ?_)⟩
    · exact absurd hk (not_or.mpr ⟨h₁, h₂⟩)
    · exact fun k' hk' => hholds k' (List.mem_cons_of_mem _ hk')
    · obtain hmem | hmem := List.mem_cons.mp hmem
      · obtain hk | hk := hk <;> cases hmem.trans hk
      · exact hmem

/-- The return of the callback. -/
theorem Safe.resumed {s : Session} {stack : List Pending} (hs : Safe limit s)
    (hstack : s.stack = k :: stack) (log : List Event) :
    Safe limit ⟨(s.object.resume k).2, stack, log⟩ := by
  obtain ⟨hhead, hbottom⟩ : AtBottom (k :: stack) := hstack ▸ hs.bottom
  have hsent : k = .sent ∨ k = .started → Safe limit ⟨(s.object.resume k).2, stack, log⟩ := by
    intro hk
    have hobject : (s.object.resume k).2 = s.object := by
      obtain rfl | rfl := hk <;> rfl
    rw [hobject]
    refine ⟨hs.bounded, hbottom, fun hholds => hs.clean fun k' hk' => ?_, fun hmem => ?_⟩
    · rw [hstack] at hk'
      obtain rfl | hk' := List.mem_cons.mp hk'
      · rintro (h | h) <;> obtain hk | hk := hk <;> cases h.symm.trans hk
      · exact hholds k' hk'
    · exact hs.accepted (hstack ▸ List.mem_cons_of_mem _ hmem)
  have hbounded := hs.bounded
  cases k with
  | sent => exact hsent (.inl rfl)
  | started => exact hsent (.inr rfl)
  | refused =>
    rw [hhead nofun nofun]
    exact ⟨⟨hbounded.1, hbounded.2, hbounded.3⟩, trivial, fun _ _ h => absurd rfl h, nofun⟩
  | accepted =>
    have hempty := hs.accepted (hstack ▸ List.mem_cons_self)
    rw [hhead nofun nofun]
    exact ⟨⟨hbounded.1, hbounded.2, hbounded.3⟩, trivial, fun _ _ _ => hempty, nofun⟩
  | closed =>
    rw [hhead nofun nofun]
    exact ⟨⟨hbounded.1, Nat.zero_le _, Nat.zero_le _⟩, trivial, fun _ _ _ => rfl, nofun⟩
  | ponged =>
    rw [hhead nofun nofun]
    exact ⟨⟨hbounded.1, hbounded.2, Nat.zero_le _⟩, trivial, fun _ _ _ => rfl, nofun⟩

theorem safe_step {s s' : Session} {m : Move} (hs : Safe limit s)
    (h : Guarded Unnested Session.Steps s m s') : Safe limit s' := by
  obtain ⟨⟨hnested, hmax⟩, hstep⟩ := h
  obtain ⟨op, c, rfl, hc, rfl⟩ | ⟨k, stack, -, hstack, rfl⟩ := Session.steps_cases hstep
  · by_cases hop : ∃ date buffer, op = .recvMessage date buffer
    · obtain ⟨date, buffer, rfl⟩ := hop
      have hstack := hnested date buffer rfl
      obtain ⟨⟨c', rest⟩, hr, rfl⟩ := Option.map_eq_some_iff.mp hc
      refine .settled hstack (recvMessage_settled hs.bounded (hs.clean ?_) hr)
      rw [hstack]
      exact nofun
    · exact hs.untouched (start_untouched (fun date buffer h => hop ⟨date, buffer, h⟩)
        (fun size h => hmax size (congrArg _ h)) hc)
  · exact hs.resumed hstack _

/-- A call of `recvMessage` on a connected object reads nothing outside its buffer and
overruns no array. -/
theorem exists_recvMessage (hp : Bounded limit p) (hstatus : p.status = .connected)
    (hclean : p.controlMessage = []) : ∃ r, p.recvMessage date buffer = some r := by
  obtain ⟨q, b, hfragments, hconcluded⟩ := @recvMessage_concluded p buffer date hstatus
  obtain ⟨hq, hqclean⟩ := hfragments.bounded hp hclean
  generalize p.recvMessage date buffer = r at hconcluded
  cases hconcluded with
  | more | malformed | failed | data | close | pong => exact ⟨_, rfl⟩
  | @ping f last hparse =>
    have htaken : Bounded limit (q.taken f last) := bounded_taken hq hqclean hparse
    obtain ⟨c, hc⟩ := exists_sendPongFrame htaken.control
    rw [hc]
    exact ⟨_, rfl⟩

/-- While `recvMessage` is not called inside the output callback: the message stays
within the limit and the payload of a control frame within 125 bytes, nothing of a
control frame is kept when `readFrame` is entered, and nothing is read or written
outside a buffer. -/
theorem session_bounds (hmessage : p.message.length ≤ p.messageSizeMax)
    (hcontrol : p.controlMessage = []) {moves : List Move} {s : Session}
    (h : Run (Guarded Unnested Session.Steps) (.init p) moves s) :
    s.object.message.length ≤ p.messageSizeMax ∧
    s.object.controlMessage.length ≤ 125 ∧
    (∃ c, s.object.sendPongFrame = some c) ∧
    (s.stack = [] → s.object.status = .connected → ∀ date buffer,
      (∀ q rest, Fragments s.object buffer q rest →
        q.message.length ≤ p.messageSizeMax ∧ q.controlMessage = [] ∧
          ∃ handler, q.readFrame rest = some handler) ∧
      ∃ r, s.object.recvMessage date buffer = some r) := by
  have hinit : Safe p.messageSizeMax (.init p) :=
    ⟨⟨rfl, hmessage, by rw [Session.init, hcontrol]; decide⟩, trivial,
      fun _ _ _ => hcontrol, nofun⟩
  have hs : Safe p.messageSizeMax s := h.invariant safe_step hinit
  refine ⟨hs.bounded.message, hs.bounded.control, exists_sendPongFrame hs.bounded.control,
    fun hstack hstatus date buffer => ?_⟩
  have hclean : s.object.controlMessage = [] :=
    hs.clean (by rw [hstack]; exact nofun) (by simp [hstatus]) (by simp [hstatus])
  refine ⟨fun q rest hfragments => ?_, exists_recvMessage hs.bounded hstatus hclean⟩
  obtain ⟨hq, hqclean⟩ := hfragments.bounded hs.bounded hclean
  refine ⟨hq.message, hqclean, ?_⟩
  have hcases := readFrame_cases q rest
  generalize q.readFrame rest = r at hcases
  cases hcases with
  | more | malformed | failed | fragment | data | close | pong => exact ⟨_, rfl⟩
  | @ping f last hparse =>
    have htaken : Bounded _ (q.taken f last) := bounded_taken hq hqclean hparse
    obtain ⟨c, hc⟩ := exists_sendPongFrame htaken.control
    rw [hc]
    exact ⟨_, rfl⟩

/-- A server that is answering a ping frame. -/
theorem session_bounds_ping :
    let p : WebSocketProtocol := { construct true with status := .connected }
    ∃ s : Session, s.stack = [.ponged] ∧
      s.object.message.length ≤ p.messageSizeMax ∧
      s.object.controlMessage.length ≤ 125 ∧
      (∃ c, s.object.sendPongFrame = some c) ∧
      (s.stack = [] → s.object.status = .connected → ∀ date buffer,
        (∀ q rest, Fragments s.object buffer q rest →
          q.message.length ≤ p.messageSizeMax ∧ q.controlMessage = [] ∧
            ∃ handler, q.readFrame rest = some handler) ∧
        ∃ r, s.object.recvMessage date buffer = some r) := by
  have hmove : Guarded Unnested Session.Steps
      (.init { construct true with status := .connected })
      (.call (.recvMessage [] [0x89, 0x80, 0, 0, 0, 0]))
      ⟨{ construct true with status := .connected }, [.ponged], [.output (.frame 10 [0x8a, 0])]⟩ :=
    ⟨⟨fun _ _ _ => rfl, fun _ h => by cases h⟩, rfl⟩
  exact ⟨_, rfl, session_bounds (by decide) rfl (.cons hmove .nil)⟩

end WebSocketProtocol

end Brickred
