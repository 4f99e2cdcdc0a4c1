import Brickred.Protocol.WebSocketReader
import Brickred.Protocol.WebSocketSend

/-!
# Receiving in pieces

`receive` calls `recvMessage` until it waits, and retrieves every message that is
ready; `feed` does so for each piece of a stream. Both are runs of the reader, so
that nothing depends on how the stream is cut.
-/

namespace Brickred

open Incremental

namespace WebSocketProtocol

/-- Until `recvMessage` waits or the connection ends: what is observed, the object, and
the bytes left if it waits. Every other call takes bytes. -/
def receive (date : Bytes) :
    Nat → WebSocketProtocol → Bytes → Option (List Heard × WebSocketProtocol × Option Bytes)
  | 0, p, buffer => some ([], p, some buffer)
  | fuel + 1, p, buffer => do
    let (c, rest) ← p.recvMessage date buffer
    match c.finish with
    | (sent, .code .waitingMoreData, p) => some (sent.map .sent, p, some rest)
    | (sent, .code .error, p) => some (sent.map .sent ++ [.code .error], p, none)
    | (sent, .code .peerClosed, p) => some (sent.map .sent ++ [.code .peerClosed], p, none)
    | (sent, .code .messageReady, p) =>
      let (message, p) := p.retrieveMessage
      let (heard, outcome) ← receive date fuel p rest
      some (sent.map .sent ++ [.code .messageReady, .message (message.getD [])] ++ heard, outcome)
    | (sent, .code code, p) =>
      let (heard, outcome) ← receive date fuel p rest
      some (sent.map .sent ++ [.code code] ++ heard, outcome)
    | _ => none

/-- The pieces of a stream, appended one after another. -/
def feed (date : Bytes) (p : WebSocketProtocol) (buffer : Bytes) :
    List Bytes → Option (List Heard × WebSocketProtocol × Option Bytes)
  | [] => some ([], p, some buffer)
  | piece :: pieces => do
    match ← receive date ((buffer ++ piece).length + 1) p (buffer ++ piece) with
    | (heard, p, none) => some (heard, p, none)
    | (heard, p, some buffer) =>
      let (heard', outcome) ← feed date p buffer pieces
      some (heard ++ heard', outcome)

variable {p q : WebSocketProtocol} {buffer rest x : Bytes} {date : Bytes}

/-- A function that sends a frame, with a callback that returns at once. -/
theorem Sends.finish {k : Pending} {opcode : Nat} {c : Call} (h : Sends p k opcode c) :
    ∃ sent random closeFrameSent,
      c.finish = (sent, resume { p with random, closeFrameSent } k) := by
  cases h with
  | skipped => exact ⟨[], p.random, p.closeFrameSent, rfl⟩
  | muted => exact ⟨[], _, _, rfl⟩
  | sent => exact ⟨_, _, _, rfl⟩

/-- What a call of `recvMessage` on a connected object is to the reader. -/
inductive Received (p : WebSocketProtocol) (buffer : Bytes) : Option (Call × Bytes) → Prop where
  | fault {q : WebSocketProtocol} : Runs step p buffer [] (.halted .fault q) →
      Received p buffer none
  | waiting {q : WebSocketProtocol} {rest : Bytes} : q.status = .connected →
      Runs step p buffer [] (.waiting q rest) →
      Received p buffer (some (.returned (.code .waitingMoreData) q, rest))
  | error {q : WebSocketProtocol} {rest : Bytes} :
      Runs step p buffer [.code .error] (.halted .error q) →
      Received p buffer (some (.returned (.code .error) q, rest))
  | ready {q : WebSocketProtocol} {rest : Bytes} : q.status = .finished →
      Steps step p buffer q.retrieveMessage.2 rest [.code .messageReady, .message q.message] →
      rest.length < buffer.length →
      Received p buffer (some (.returned (.code .messageReady) q, rest))
  | event {c : Call} {rest : Bytes} {sent : List Output} {code : WebSocketRetCode}
      {q : WebSocketProtocol} : c.finish = (sent, .code code, q) → code = .pingFrame ∨ code = .pongFrame →
      q.status = .connected → Steps step p buffer q rest (sent.map .sent ++ [.code code]) →
      rest.length < buffer.length → Received p buffer (some (c, rest))
  | closed {c : Call} {rest : Bytes} {sent : List Output} {q : WebSocketProtocol} :
      c.finish = (sent, .code .peerClosed, q) →
      Runs step p buffer (sent.map .sent ++ [.code .peerClosed]) (.halted .peerClosed q) →
      Received p buffer (some (c, rest))

/-- A round of the loop that is followed by another. -/
theorem Received.next {r : Option (Call × Bytes)} (h : step p buffer = .next q rest [])
    (hlen : rest.length ≤ buffer.length) (hr : Received q rest r) : Received p buffer r := by
  have hsteps : ∀ {s b out}, Steps step q rest s b out → Steps step p buffer s b out :=
    fun hs => .next h hs
  have hruns : ∀ {out o}, Runs step q rest out o → Runs step p buffer out o :=
    fun hs => .next h hs
  cases hr with
  | fault hrun => exact .fault (hruns hrun)
  | waiting hq hrun => exact .waiting hq (hruns hrun)
  | error hrun => exact .error (hruns hrun)
  | ready hq hrun hlt => exact .ready hq (hsteps hrun) (by omega)
  | event hc hcode hq hrun hlt => exact .event hc hcode hq (hsteps hrun) (by omega)
  | closed hc hrun => exact .closed hc (hruns hrun)

/-- The loop of `recvMessage` is a run of the reader. -/
theorem recvLoop_received (hp : p.status = .connected) (fuel : Nat) (hfuel : buffer.length < fuel) :
    Received p buffer (recvLoop date fuel p buffer) := by
  induction fuel generalizing p buffer with
  | zero => omega
  | succ fuel ih =>
    have hhandle : p.handle date buffer = (p.readFrame buffer).map some := by
      rw [handle, hp]
    have hdrop : ∀ {f : Incoming}, p.parseFrame buffer = some (.ready f) →
        (buffer.drop f.size).length < buffer.length := by
      intro f hf
      obtain ⟨part, hpart, hok⟩ := (parseFrame_reads p buffer []).isSome
      obtain ⟨h2, hle, -⟩ := hok f (Option.some.inj (hpart.symm.trans hf))
      rw [List.length_drop]
      omega
    have hcases := readFrame_cases p buffer
    have hstep : step p buffer = ofHandler p (p.readFrame buffer) := rfl
    unfold recvLoop
    rw [hhandle]
    generalize p.readFrame buffer = r at hcases hstep
    cases hcases with
    | more => exact .waiting hp (.wait hstep)
    | malformed => exact .error (.halt hstep)
    | failed => exact .error (.halt hstep)
    | fragment hf hfin =>
      rename_i f last
      have hstatus : (p.taken f last).status = .connected := by rw [status_taken, hp]
      have hnext : step p buffer = .next (p.taken f last) (buffer.drop f.size) [] := by
        rw [hstep, ofHandler, if_neg (by rw [hstatus]; decide)]
      have hrest := @ih (p.taken f last) (buffer.drop f.size) hstatus (by have := hdrop hf; omega)
      show Received p buffer (ite _ _ (ite _ _ _))
      rw [if_neg (by rw [hstatus]; decide), if_neg (by rw [hstatus]; decide)]
      exact hrest.next hnext (hdrop hf).le
    | data hf hfin hlt =>
      rename_i f last
      have hnext : step p buffer = .next
          (retrieveMessage { p.taken f last with status := .finished }).2 (buffer.drop f.size)
          [.code .messageReady, .message (p.taken f last).message] := by
        rw [hstep, ofHandler, if_pos rfl]
      exact .ready rfl (.one hnext) (hdrop hf)
    | close hf =>
      rename_i f last
      obtain ⟨sent, random, closeFrameSent, hfinish⟩ :=
        (sendCloseFrame_sends (p.taken f last) .closed).finish
      have hhalt : step p buffer =
          .halt .peerClosed (resume { p.taken f last with random, closeFrameSent } .closed).2
            (sent.map .sent ++ [.code .peerClosed]) := by
        rw [hstep, ofHandler, ofCall, hfinish]
        rfl
      exact .closed hfinish (.halt hhalt)
    | ping hf =>
      rename_i f last
      cases hpong : (p.taken f last).sendPongFrame with
      | none =>
        rw [hpong] at hstep
        exact .fault (.halt hstep)
      | some c =>
        rw [hpong] at hstep
        obtain ⟨sent, random, closeFrameSent, hfinish⟩ := (sendPongFrame_sends hpong).finish
        have hstatus : (p.taken f last).status = .connected := by rw [status_taken, hp]
        have hnext : step p buffer =
            .next (resume { p.taken f last with random, closeFrameSent } .ponged).2
              (buffer.drop f.size) (sent.map .sent ++ [.code .pingFrame]) := by
          rw [hstep, Option.map_some, ofHandler, ofCall, hfinish]
          rfl
        exact .event hfinish (.inl rfl) hstatus (.one hnext) (hdrop hf)
    | pong hf =>
      rename_i f last
      have hstatus : (p.taken f last).status = .connected := by rw [status_taken, hp]
      have hnone : ([] : List Output).map Heard.sent ++ [.code .pongFrame] = [.code .pongFrame] := rfl
      exact .event rfl (.inr rfl) hstatus (hnone ▸ .one hstep) (hdrop hf)

theorem recvMessage_received (hp : p.status = .connected) :
    Received p buffer (p.recvMessage date buffer) :=
  recvLoop_received hp _ (Nat.lt_succ_self _)

/-- What `receive` and `feed` return for a run. -/
def result (heard : List Heard) :
    Outcome UInt8 WebSocketProtocol Ended → Option (List Heard × WebSocketProtocol × Option Bytes)
  | .waiting q rest => some (heard, q, some rest)
  | .halted .fault _ => none
  | .halted _ q => some (heard, q, none)

theorem result_append (out heard : List Heard) (r : Outcome UInt8 WebSocketProtocol Ended) :
    result (out ++ heard) r = (result heard r).bind fun o => some (out ++ o.1, o.2) := by
  cases r with
  | waiting q rest => rfl
  | halted e q => cases e <;> rfl

/-- The object is connected where a run waits. -/
def StaysConnected (r : Outcome UInt8 WebSocketProtocol Ended) : Prop :=
  ∀ q rest, r = .waiting q rest → q.status = .connected

theorem staysConnected_halted {e : Ended} : StaysConnected (.halted e q) := by
  intro _ _ h
  cases h

/-- `receive` is a run of the reader. -/
theorem receive_runs (hp : p.status = .connected) (fuel : Nat) (hfuel : buffer.length < fuel) :
    ∃ heard r, Runs step p buffer heard r ∧ receive date fuel p buffer = result heard r ∧
      StaysConnected r := by
  induction fuel generalizing p buffer with
  | zero => omega
  | succ fuel ih =>
    have hreceived := @recvMessage_received p buffer date hp
    unfold receive
    generalize p.recvMessage date buffer = r at hreceived
    cases hreceived with
    | fault hrun => exact ⟨_, _, hrun, rfl, staysConnected_halted⟩
    | waiting hq hrun =>
      refine ⟨_, _, hrun, ?_, fun _ _ h => ?_⟩
      · simp only [Option.bind_eq_bind, Option.bind_some, Call.finish]
        rfl
      · cases h
        exact hq
    | error hrun =>
      refine ⟨_, _, hrun, ?_, staysConnected_halted⟩
      simp only [Option.bind_eq_bind, Option.bind_some, Call.finish]
      rfl
    | ready hq hsteps hlt =>
      rename_i q rest
      have hretrieve : q.retrieveMessage =
          (some q.message, { q with message := [], status := .connected }) := by
        rw [retrieveMessage, if_neg (by simp [hq])]
      rw [hretrieve] at hsteps
      obtain ⟨heard, r, hrun, hresult, hr⟩ :=
        @ih { q with message := [], status := .connected } rest rfl (by omega)
      refine ⟨_, r, hsteps.runs hrun, ?_, hr⟩
      rw [result_append, ← hresult]
      simp only [Option.bind_eq_bind, Option.bind_some, Call.finish, hretrieve]
      rfl
    | event hfinish hcode hq hsteps hlt =>
      rename_i c rest sent code q
      obtain ⟨heard, r, hrun, hresult, hr⟩ := @ih q rest hq (by omega)
      refine ⟨_, r, hsteps.runs hrun, ?_, hr⟩
      rw [result_append, ← hresult]
      obtain rfl | rfl := hcode
      · simp only [Option.bind_eq_bind, Option.bind_some, hfinish]
      · simp only [Option.bind_eq_bind, Option.bind_some, hfinish]
    | closed hfinish hrun =>
      refine ⟨_, _, hrun, ?_, staysConnected_halted⟩
      simp only [Option.bind_eq_bind, Option.bind_some, hfinish]
      rfl

/-- `feed` feeds the pieces to the reader. -/
theorem feed_feeds (hp : p.status = .connected) (pieces : List Bytes) :
    ∃ heard r, Feeds step p buffer pieces heard r ∧ feed date p buffer pieces = result heard r := by
  induction pieces generalizing p buffer with
  | nil => exact ⟨[], .waiting p buffer, .nil, rfl⟩
  | cons piece pieces ih =>
    obtain ⟨heard, r, hrun, hresult, hr⟩ :=
      @receive_runs p (buffer ++ piece) date hp _ (Nat.lt_succ_self _)
    unfold feed
    rw [hresult]
    cases r with
    | halted e q =>
      refine ⟨heard, _, .halt hrun, ?_⟩
      cases e <;> rfl
    | waiting q rest =>
      obtain ⟨heard', r', hfeeds, hresult'⟩ := @ih q rest (hr q rest rfl)
      refine ⟨_, r', .cons hrun hfeeds, ?_⟩
      rw [result_append, ← hresult']
      rfl

/-- No call reads anything of an object that is not to receive. -/
theorem recvMessage_idle (hp : p.status = .detached ∨ p.status = .finished ∨ p.status = .closed ∨
    p.status = .pendingError) :
    p.recvMessage date buffer = some (.returned (.code .error) p, buffer) := by
  have hhandle : p.handle date buffer = some none := by
    unfold handle
    obtain hp | hp | hp | hp := hp <;> rw [hp]
  unfold recvMessage recvLoop
  rw [hhandle]
  rfl

theorem step_nil (p : WebSocketProtocol) : step p [] = .wait := rfl

/-- `feed` is a run of the reader on the whole stream. -/
theorem feed_runs (date : Bytes) (hp : p.status = .connected) (pieces : List Bytes) :
    ∃ heard r, Runs step p pieces.flatten heard r ∧ feed date p [] pieces = result heard r := by
  obtain ⟨heard, r, hfeeds, hresult⟩ := @feed_feeds p [] date hp pieces
  exact ⟨heard, r, hfeeds.runs step_stable trivial (step_nil p), hresult⟩

/-- What is returned, retrieved and sent, the object at the end, and the bytes left if
the connection has not ended, do not depend on how the stream is cut. -/
theorem feed_cut (hp : p.status = .connected) {pieces pieces' : List Bytes}
    (hcut : pieces.flatten = pieces'.flatten) :
    feed date p [] pieces = feed date p [] pieces' := by
  obtain ⟨heard, r, hfeeds, hresult⟩ := @feed_feeds p [] date hp pieces
  obtain ⟨heard', r', hfeeds', hresult'⟩ := @feed_feeds p [] date hp pieces'
  obtain ⟨rfl, rfl⟩ := hfeeds.unique step_stable trivial (step_nil p) hcut hfeeds'
  rw [hresult, hresult']

/-- A server that is sent a ping frame in two pieces. -/
theorem feed_cut_ping :
    feed [] { construct true with status := .connected } [] [[0x89], [0x80, 0, 0, 0, 0]] =
      feed [] { construct true with status := .connected } [] [[0x89, 0x80, 0, 0, 0, 0]] :=
  feed_cut rfl rfl

end WebSocketProtocol

end Brickred
