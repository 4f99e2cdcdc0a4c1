import Brickred.Lib.Transition
import Brickred.Protocol.WebSocketFeed

/-!
# Sessions of a `WebSocketProtocol`

A session is any sequence of calls on one object. The output callback may call any of
the functions before it returns, so the state of a session is the object together with
the calls that are inside the callback; between two steps the control is with the
user, either outside every call or in the innermost callback.
-/

namespace Brickred

open Transition

namespace WebSocketProtocol

/-- A call of the user. -/
inductive Op where
  | setOutputCallback (installed : Bool)
  | setMessageMaxSize (size : Nat)
  | setHandshakeHeader (key value : Bytes)
  | startAsClient (ip : Bytes) (port : Nat) (random : Nat → UInt8) (requestUri : Bytes)
  | startAsServer
  | recvMessage (date buffer : Bytes)
  | retrieveMessage
  | sendMessage (data : Bytes)
  | sendCloseFrame
  | sendPingFrame

/-- The call, up to its end or to the output callback. -/
def start (p : WebSocketProtocol) : Op → Option Call
  | .setOutputCallback installed => some (.returned .void { p with outputCb := installed })
  | .setMessageMaxSize size => some (.returned .void (p.setMessageMaxSize size))
  | .setHandshakeHeader key value => some (.returned .void (p.setHandshakeHeader key value))
  | .startAsClient ip port random requestUri => p.startAsClient ip port random requestUri
  | .startAsServer => some (.returned (.bool p.startAsServer.1) p.startAsServer.2)
  | .recvMessage date buffer => (p.recvMessage date buffer).map Prod.fst
  | .retrieveMessage => some (.returned (.message p.retrieveMessage.1) p.retrieveMessage.2)
  | .sendMessage data => some (p.sendMessage data)
  | .sendCloseFrame => some (p.sendCloseFrame .sent)
  | .sendPingFrame => some p.sendPingFrame

/-- A step of a session: a call, or the return of the innermost callback. -/
inductive Move where
  | call (op : Op)
  | callbackReturn

/-- What happens in a session. -/
inductive Event where
  | output (o : Output)
  | returned (r : Result)
deriving DecidableEq, Repr

/-- The object, what the calls in the output callback are waiting for, innermost first,
and what has happened. -/
structure Session where
  object : WebSocketProtocol
  stack : List Pending
  log : List Event

namespace Session

/-- A session begins. -/
def init (p : WebSocketProtocol) : Session := ⟨p, [], []⟩

def after (s : Session) : Call → Session
  | .returned r p => ⟨p, s.stack, s.log ++ [.returned r]⟩
  | .output o k p => ⟨p, k :: s.stack, s.log ++ [.output o]⟩

def step (s : Session) : Move → Option Session
  | .call op => (start s.object op).map s.after
  | .callbackReturn =>
    match s.stack with
    | [] => none
    | k :: stack => some ⟨(s.object.resume k).2, stack, s.log ++ [.returned (s.object.resume k).1]⟩

/-- One move of a session. -/
def Steps (s : Session) (m : Move) (s' : Session) : Prop := s.step m = some s'

/-- Some moves. -/
def run (s : Session) (moves : List Move) : Option Session := moves.foldlM step s

theorem run_of_eq {s s' : Session} {moves : List Move} (h : s.run moves = some s') :
    Run Steps s moves s' :=
  run_of_foldlM id h

/-- Everything that a move can be. -/
theorem steps_cases {s s' : Session} {m : Move} (h : Steps s m s') :
    (∃ op c, m = .call op ∧ start s.object op = some c ∧ s' = s.after c) ∨
    (∃ k stack, m = .callbackReturn ∧ s.stack = k :: stack ∧
      s' = ⟨(s.object.resume k).2, stack, s.log ++ [.returned (s.object.resume k).1]⟩) := by
  cases m with
  | call op =>
    obtain ⟨c, hc, rfl⟩ := Option.map_eq_some_iff.mp h
    exact .inl ⟨op, c, rfl, hc, rfl⟩
  | callbackReturn =>
    unfold Steps step at h
    cases hstack : s.stack with
    | nil =>
      rw [hstack] at h
      cases h
    | cons k stack =>
      rw [hstack] at h
      cases h
      exact .inr ⟨k, stack, rfl, rfl, rfl⟩

end Session

variable {p q : WebSocketProtocol} {buffer rest date : Bytes} {c : Call}

/-! ## What `recvMessage` can do -/

/-- Fragments that one call of `recvMessage` reads. -/
inductive Fragments : WebSocketProtocol → Bytes → WebSocketProtocol → Bytes → Prop where
  | refl {p : WebSocketProtocol} {buffer : Bytes} : Fragments p buffer p buffer
  | next {p q : WebSocketProtocol} {buffer rest : Bytes} {f : Incoming} {last : Option Nat} :
      p.parseFrame buffer = some (.ready f) → f.fin = false →
      Fragments (p.taken f last) (buffer.drop f.size) q rest → Fragments p buffer q rest

/-- Fragments change what is kept of a message, and nothing else. -/
structure Kept (p q : WebSocketProtocol) : Prop where
  status : q.status = p.status
  outputCb : q.outputCb = p.outputCb
  isClient : q.isClient = p.isClient
  closeFrameSent : q.closeFrameSent = p.closeFrameSent
  messageSizeMax : q.messageSizeMax = p.messageSizeMax

theorem kept_taken (p : WebSocketProtocol) (f : Incoming) (last : Option Nat) :
    Kept p (p.taken f last) :=
  ⟨status_taken, outputCb_taken, isClient_taken, closeFrameSent_taken, messageSizeMax_taken⟩

theorem Kept.trans {p q r : WebSocketProtocol} (h₁ : Kept p q) (h₂ : Kept q r) : Kept p r where
  status := h₂.status.trans h₁.status
  outputCb := h₂.outputCb.trans h₁.outputCb
  isClient := h₂.isClient.trans h₁.isClient
  closeFrameSent := h₂.closeFrameSent.trans h₁.closeFrameSent
  messageSizeMax := h₂.messageSizeMax.trans h₁.messageSizeMax

theorem Fragments.kept (h : Fragments p buffer q rest) : Kept p q := by
  induction h with
  | refl => exact ⟨rfl, rfl, rfl, rfl, rfl⟩
  | next _ _ _ ih => exact (kept_taken _ _ _).trans ih

/-- How `recvMessage` ends on a connected object, with the frame that it reads last. -/
inductive Concluded (p : WebSocketProtocol) (buffer : Bytes) : Option (Call × Bytes) → Prop where
  | more : p.parseFrame buffer = some .more →
      Concluded p buffer (some (.returned (.code .waitingMoreData) p, buffer))
  | malformed : p.parseFrame buffer = some .failed →
      Concluded p buffer (some (.returned (.code .error) { p with status := .pendingError }, buffer))
  | failed {f : Incoming} {last : Option Nat} : p.parseFrame buffer = some (.ready f) →
      Concluded p buffer (some (.returned (.code .error)
        { p.taken f last with status := .pendingError }, buffer.drop f.size))
  | data {f : Incoming} {last : Option Nat} : p.parseFrame buffer = some (.ready f) →
      f.fin = true → f.opcode < 8 → Concluded p buffer (some (.returned (.code .messageReady)
        { p.taken f last with status := .finished }, buffer.drop f.size))
  | close {f : Incoming} {last : Option Nat} : p.parseFrame buffer = some (.ready f) →
      Concluded p buffer (some ((p.taken f last).sendCloseFrame .closed, buffer.drop f.size))
  | ping {f : Incoming} {last : Option Nat} : p.parseFrame buffer = some (.ready f) →
      Concluded p buffer ((p.taken f last).sendPongFrame.map fun c => (c, buffer.drop f.size))
  | pong {f : Incoming} {last : Option Nat} : p.parseFrame buffer = some (.ready f) →
      Concluded p buffer (some (.returned (.code .pongFrame)
        { p.taken f last with controlMessage := [], retCode := .pongFrame }, buffer.drop f.size))

theorem recvLoop_concluded (hp : p.status = .connected) (fuel : Nat)
    (hfuel : buffer.length < fuel) :
    ∃ q rest, Fragments p buffer q rest ∧ Concluded q rest (recvLoop date fuel p buffer) := by
  induction fuel generalizing p buffer with
  | zero => omega
  | succ fuel ih =>
    have hhandle : p.handle date buffer = (p.readFrame buffer).map some := by
      rw [handle, hp]
    have hcases := readFrame_cases p buffer
    unfold recvLoop
    rw [hhandle]
    generalize p.readFrame buffer = r at hcases
    cases hcases with
    | more h => exact ⟨p, buffer, .refl, .more h⟩
    | malformed h => exact ⟨p, buffer, .refl, .malformed h⟩
    | failed h => exact ⟨p, buffer, .refl, .failed h⟩
    | @fragment f last h hfin =>
      have hstatus : (p.taken f last).status = .connected := by rw [status_taken, hp]
      have hdrop : (buffer.drop f.size).length < buffer.length := by
        obtain ⟨part, hpart, hok⟩ := (parseFrame_reads p buffer []).isSome
        obtain ⟨h2, hle, -⟩ := hok f (Option.some.inj (hpart.symm.trans h))
        rw [List.length_drop]
        omega
      obtain ⟨q, rest, hfragments, hconcluded⟩ :=
        @ih (p.taken f last) (buffer.drop f.size) hstatus (by omega)
      refine ⟨q, rest, .next h hfin hfragments, ?_⟩
      show Concluded q rest (ite _ _ (ite _ _ _))
      rwa [if_neg (by rw [hstatus]; decide), if_neg (by rw [hstatus]; decide)]
    | data h hfin hlt => exact ⟨p, buffer, .refl, .data h hfin hlt⟩
    | close h => exact ⟨p, buffer, .refl, .close h⟩
    | @ping f last h =>
      refine ⟨p, buffer, .refl, ?_⟩
      have hping := @Concluded.ping p buffer f last h
      cases hpong : (p.taken f last).sendPongFrame with
      | none => rwa [hpong] at hping
      | some c => rwa [hpong] at hping
    | pong h => exact ⟨p, buffer, .refl, .pong h⟩

theorem recvMessage_concluded (hp : p.status = .connected) :
    ∃ q rest, Fragments p buffer q rest ∧ Concluded q rest (p.recvMessage date buffer) :=
  recvLoop_concluded hp _ (Nat.lt_succ_self _)

/-- How `recvMessage` ends while a handshake is awaited. -/
inductive Shaken (p : WebSocketProtocol) : Option (Call × Bytes) → Prop where
  | fault : Shaken p none
  | more {http : HttpProtocol} {rest : Bytes} :
      Shaken p (some (.returned (.code .waitingMoreData) { p with http }, rest))
  | failed {http : HttpProtocol} {handshakeHeaders : HeaderMap} {rest : Bytes} :
      Shaken p (some (.returned (.code .error)
        { p with http, handshakeHeaders, status := .pendingError }, rest))
  | established {http : HttpProtocol} {handshakeHeaders : HeaderMap} {rest : Bytes} :
      Shaken p (some (.returned (.code .connectionEstablished)
        { p with http, handshakeHeaders, status := .connected, retCode := .connectionEstablished },
        rest))
  | answered {http : HttpProtocol} {text rest : Bytes} {k : Pending} :
      k = .refused ∨ k = .accepted →
      Shaken p (some (emit { p with http } (.handshake text) k, rest))

theorem sendHandshake_emit {message : HttpMessage} {k : Pending}
    (h : p.sendHandshake message k = some c) : ∃ text, c = p.emit (.handshake text) k := by
  unfold sendHandshake at h
  unfold emit
  split at h
  · rename_i hcb
    obtain ⟨text, -, rfl⟩ := Option.map_eq_some_iff.mp h
    exact ⟨text, (if_pos hcb).symm⟩
  · rename_i hcb
    cases h
    exact ⟨[], (if_neg hcb).symm⟩

/-- What `startAsClient` can do. -/
inductive StartsClient (p : WebSocketProtocol) : Call → Prop where
  | refused : p.status ≠ .detached → StartsClient p (.returned (.bool false) p)
  | started {random : Nat → UInt8} {handshakeHeaders : HeaderMap} {text : Bytes} :
      p.status = .detached → StartsClient p
        (emit { p with
            status := .waitingHandshakeResponse, random, isClient := true, handshakeHeaders }
          (.handshake text) .started)

theorem startAsClient_startsClient {ip requestUri : Bytes} {port : Nat} {random : Nat → UInt8}
    (h : p.startAsClient ip port random requestUri = some c) : StartsClient p c := by
  unfold startAsClient at h
  split at h
  · rename_i hstatus
    cases h
    exact .refused hstatus
  rename_i hstatus
  rw [not_not] at hstatus
  dsimp only at h
  obtain ⟨text, rfl⟩ := sendHandshake_emit h
  -- whether the headers that are needed are there
  split
  · split
    · exact .started hstatus
    · exact .started hstatus
  · split
    · exact .started hstatus
    · exact .started hstatus

theorem recvMessage_request (hp : p.status = .waitingHandshakeRequest) :
    Shaken p (p.recvMessage date buffer) := by
  have hhandle : p.handle date buffer = (p.readHandshakeRequest date buffer).map some := by
    rw [handle, hp]
  unfold recvMessage recvLoop
  rw [hhandle]
  unfold readHandshakeRequest
  dsimp only
  split
  · exact .more
  · exact .answered (.inl rfl)
  · split
    · exact .answered (.inl rfl)
    · split
      · exact .answered (.inl rfl)
      · rename_i request http _ _
        cases hsend : sendHandshake { p with http } (successResponse { p with http } date request)
            .accepted with
        | none => exact .fault
        | some c =>
          obtain ⟨text, rfl⟩ := sendHandshake_emit hsend
          exact .answered (.inr rfl)

theorem recvMessage_response (hp : p.status = .waitingHandshakeResponse) :
    Shaken p (p.recvMessage date buffer) := by
  have hhandle : p.handle date buffer = some (some (p.readHandshakeResponse buffer)) := by
    rw [handle, hp]
  unfold recvMessage recvLoop
  rw [hhandle]
  unfold readHandshakeResponse
  dsimp only
  split
  · exact .more
  · exact .failed
  · split
    · exact .failed
    · rename_i response http _
      -- the entry that the lookup of the key may have made
      by_cases hkey : (p.handshakeHeaders.find (bytes "Sec-WebSocket-Key")).isNone
      · rw [if_pos hkey]
        split
        · exact .failed
        · exact .established
      · rw [if_neg hkey]
        split
        · exact .failed
        · exact .established

/-! ## The callback that is installed -/

/-- The object when a call is over or in the output callback. -/
def Call.object : Call → WebSocketProtocol
  | .returned _ p => p
  | .output _ _ p => p

@[simp] theorem outputCb_resume {k : Pending} : (p.resume k).2.outputCb = p.outputCb := by
  cases k <;> rfl

theorem outputCb_emit {o : Output} {k : Pending} : (p.emit o k).object.outputCb = p.outputCb := by
  unfold emit
  split
  · rfl
  · exact outputCb_resume

theorem Sends.outputCb {k : Pending} {opcode : Nat} (h : Sends p k opcode c) :
    c.object.outputCb = p.outputCb := by
  cases h with
  | skipped => exact outputCb_resume
  | muted => exact outputCb_resume
  | sent => rfl

theorem Concluded.outputCb (h : Concluded p buffer (some (c, rest))) :
    c.object.outputCb = p.outputCb := by
  generalize hr : some (c, rest) = r at h
  cases h with
  | more | malformed =>
    cases hr
    rfl
  | @failed f last | @data f last | @pong f last =>
    cases hr
    exact (kept_taken p f last).outputCb
  | @close f last =>
    cases hr
    exact (sendCloseFrame_sends _ _).outputCb.trans (kept_taken p f last).outputCb
  | @ping f last =>
    obtain ⟨c, hc, hr⟩ := Option.map_eq_some_iff.mp hr.symm
    cases hr
    exact (sendPongFrame_sends hc).outputCb.trans (kept_taken p f last).outputCb

theorem Shaken.outputCb (h : Shaken p (some (c, rest))) : c.object.outputCb = p.outputCb := by
  cases h with
  | more | failed | established => rfl
  | answered => exact outputCb_emit

theorem recvMessage_outputCb (h : p.recvMessage date buffer = some (c, rest)) :
    c.object.outputCb = p.outputCb := by
  have hidle : ∀ {q}, some (c, rest) = some (.returned (.code .error) q, buffer) →
      c.object = q := by
    rintro q ⟨⟩
    rfl
  cases hp : p.status with
  | connected =>
    obtain ⟨q, b, hfragments, hconcluded⟩ := @recvMessage_concluded p buffer date hp
    rw [h] at hconcluded
    exact hconcluded.outputCb.trans hfragments.kept.outputCb
  | waitingHandshakeRequest => exact (h ▸ @recvMessage_request p buffer date hp).outputCb
  | waitingHandshakeResponse => exact (h ▸ @recvMessage_response p buffer date hp).outputCb
  | detached => rw [hidle (h.symm.trans (recvMessage_idle (.inl hp)))]
  | finished => rw [hidle (h.symm.trans (recvMessage_idle (.inr (.inl hp))))]
  | closed => rw [hidle (h.symm.trans (recvMessage_idle (.inr (.inr (.inl hp)))))]
  | pendingError => rw [hidle (h.symm.trans (recvMessage_idle (.inr (.inr (.inr hp)))))]

/-- Only `setOutputCallback` takes the callback away. -/
theorem start_outputCb {op : Op} (h : start p op = some c) (hop : op ≠ .setOutputCallback false)
    (hcb : p.outputCb = true) : c.object.outputCb = true := by
  rw [← hcb]
  cases op with
  | setOutputCallback installed =>
    cases h
    cases installed with
    | false => exact absurd rfl hop
    | true => exact hcb.symm
  | setMessageMaxSize size =>
    cases h
    show (p.setMessageMaxSize size).outputCb = p.outputCb
    unfold setMessageMaxSize
    split <;> rfl
  | setHandshakeHeader =>
    cases h
    rfl
  | startAsClient ip port random requestUri =>
    cases startAsClient_startsClient h with
    | refused => rfl
    | started => exact outputCb_emit
  | startAsServer =>
    cases h
    show p.startAsServer.2.outputCb = p.outputCb
    unfold startAsServer
    split <;> rfl
  | recvMessage date buffer =>
    obtain ⟨⟨c', rest⟩, hr, rfl⟩ := Option.map_eq_some_iff.mp h
    exact recvMessage_outputCb hr
  | retrieveMessage =>
    cases h
    show p.retrieveMessage.2.outputCb = p.outputCb
    unfold retrieveMessage
    split <;> rfl
  | sendMessage data =>
    cases h
    exact (sendMessage_sends p data).outputCb
  | sendCloseFrame =>
    cases h
    exact (sendCloseFrame_sends p .sent).outputCb
  | sendPingFrame =>
    cases h
    exact (sendPingFrame_sends p).outputCb

end WebSocketProtocol

end Brickred
