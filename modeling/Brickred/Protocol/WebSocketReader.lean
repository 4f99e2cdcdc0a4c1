import Brickred.Lib.Incremental
import Brickred.Protocol.WebSocketParse

/-!
# A connected `WebSocketProtocol` as a reader

`FrameStep` says all that one call of `readFrame` can do. A reader takes one frame in
a step; `receive` calls `recvMessage` until it waits and retrieves the messages that
are ready, and is a run of the reader.
-/

namespace Brickred

open Incremental

namespace WebSocketProtocol

/-- The object with the payload of a frame copied. -/
def copied (p : WebSocketProtocol) (f : Incoming) : WebSocketProtocol :=
  if f.opcode ≥ 8 then { p with controlMessage := p.controlMessage ++ f.payload }
  else { p with message := p.message ++ f.payload }

/-- The object with the payload copied, and with another opcode remembered. -/
def taken (p : WebSocketProtocol) (f : Incoming) (last : Option Nat) : WebSocketProtocol :=
  { p.copied f with lastOpCode := last }

variable {p q : WebSocketProtocol} {buffer rest x : Bytes} {f : Incoming} {last : Option Nat}

@[simp] theorem status_taken : (p.taken f last).status = p.status := by
  unfold taken copied
  dsimp only
  split <;> rfl

@[simp] theorem closeFrameSent_taken : (p.taken f last).closeFrameSent = p.closeFrameSent := by
  unfold taken copied
  dsimp only
  split <;> rfl

@[simp] theorem outputCb_taken : (p.taken f last).outputCb = p.outputCb := by
  unfold taken copied
  dsimp only
  split <;> rfl

@[simp] theorem isClient_taken : (p.taken f last).isClient = p.isClient := by
  unfold taken copied
  dsimp only
  split <;> rfl

@[simp] theorem random_taken : (p.taken f last).random = p.random := by
  unfold taken copied
  dsimp only
  split <;> rfl

@[simp] theorem messageSizeMax_taken : (p.taken f last).messageSizeMax = p.messageSizeMax := by
  unfold taken copied
  dsimp only
  split <;> rfl

@[simp] theorem lastOpCode_taken : (p.taken f last).lastOpCode = last := rfl

theorem message_taken : (p.taken f last).message =
    if f.opcode ≥ 8 then p.message else p.message ++ f.payload := by
  unfold taken copied
  dsimp only
  split <;> rfl

theorem controlMessage_taken : (p.taken f last).controlMessage =
    if f.opcode ≥ 8 then p.controlMessage ++ f.payload else p.controlMessage := by
  unfold taken copied
  dsimp only
  split <;> rfl

theorem taken_self : p.taken f p.lastOpCode = p.copied f := by
  unfold taken copied
  split <;> rfl

/-- All that a call of `readFrame` can do. -/
inductive FrameStep (p : WebSocketProtocol) (buffer : Bytes) : Option Handler → Prop where
  | more : p.parseFrame buffer = some .more → FrameStep p buffer (some (.ret .more p buffer))
  | malformed : p.parseFrame buffer = some .failed →
      FrameStep p buffer (some (.ret .failed p buffer))
  | failed {f : Incoming} {last : Option Nat} : p.parseFrame buffer = some (.ready f) →
      FrameStep p buffer (some (.ret .failed (p.taken f last) (buffer.drop f.size)))
  | fragment {f : Incoming} {last : Option Nat} : p.parseFrame buffer = some (.ready f) → f.fin = false →
      FrameStep p buffer (some (.ret .done (p.taken f last) (buffer.drop f.size)))
  | data {f : Incoming} {last : Option Nat} : p.parseFrame buffer = some (.ready f) →
      f.fin = true → f.opcode < 8 → FrameStep p buffer
        (some (.ret .done { p.taken f last with status := .finished } (buffer.drop f.size)))
  | close {f : Incoming} {last : Option Nat} : p.parseFrame buffer = some (.ready f) →
      FrameStep p buffer
        (some (.call ((p.taken f last).sendCloseFrame .closed) (buffer.drop f.size)))
  | ping {f : Incoming} {last : Option Nat} : p.parseFrame buffer = some (.ready f) →
      FrameStep p buffer
        ((p.taken f last).sendPongFrame.map fun c => .call c (buffer.drop f.size))
  | pong {f : Incoming} {last : Option Nat} : p.parseFrame buffer = some (.ready f) →
      FrameStep p buffer
        (some (.ret .event { p.taken f last with controlMessage := [], retCode := .pongFrame }
          (buffer.drop f.size)))

theorem readFrame_cases (p : WebSocketProtocol) (buffer : Bytes) :
    FrameStep p buffer (p.readFrame buffer) := by
  obtain ⟨part, hpart, -⟩ := (parseFrame_reads p buffer []).isSome
  unfold readFrame
  cases part with
  | more =>
    rw [hpart]
    exact .more hpart
  | failed =>
    rw [hpart]
    exact .malformed hpart
  | ready f =>
    rw [hpart]
    show FrameStep p buffer (processFrame (p.copied f) f.fin f.opcode (buffer.drop f.size))
    have hlast : (p.copied f).lastOpCode = p.lastOpCode := by
      rw [← taken_self, lastOpCode_taken]
    unfold processFrame
    rw [hlast]
    cases hfin : f.fin with
    | false =>
      rw [if_pos rfl]
      split
      · split
        · rw [← taken_self]
          exact .failed hpart
        · exact .fragment hpart hfin
      · split
        · rw [← taken_self]
          exact .failed hpart
        · rw [← taken_self]
          exact .fragment hpart hfin
    | true =>
      rw [if_neg (by decide)]
      -- the opcode that decides, and what is remembered after it
      have hframe : ∀ opcode last, (opcode < 8 → f.opcode < 8) → FrameStep p buffer
          (if opcode = 1 ∨ opcode = 2 then
            some (.ret .done { p.taken f last with status := .finished } (buffer.drop f.size))
          else if opcode = 8 then
            some (.call ((p.taken f last).sendCloseFrame .closed) (buffer.drop f.size))
          else if opcode = 9 then
            (p.taken f last).sendPongFrame.map fun c => .call c (buffer.drop f.size)
          else if opcode = 10 then
            some (.ret .event { p.taken f last with controlMessage := [], retCode := .pongFrame }
              (buffer.drop f.size))
          else some (.ret .failed (p.taken f last) (buffer.drop f.size))) := by
        intro opcode last hlt
        split
        · exact .data hpart hfin (hlt (by omega))
        split
        · exact .close hpart
        split
        · exact .ping hpart
        split
        · exact .pong hpart
        · exact .failed hpart
      by_cases hzero : f.opcode = 0
      · simp only [if_pos hzero]
        cases hopen : p.lastOpCode with
        | none =>
          rw [← taken_self]
          exact .failed hpart
        | some opcode => exact hframe opcode none (by omega)
      · simp only [if_neg hzero]
        by_cases hopen : f.opcode < 8 ∧ p.lastOpCode ≠ none
        · simp only [if_pos hopen]
          rw [← taken_self]
          exact .failed hpart
        · simp only [if_neg hopen]
          rw [← taken_self]
          exact hframe f.opcode p.lastOpCode id

/-- A result with more input left. -/
def Handler.append (x : Bytes) : Handler → Handler
  | .ret h q rest => .ret h q (rest ++ x)
  | .call c rest => .call c (rest ++ x)

theorem processFrame_append (p : WebSocketProtocol) (fin : Bool) (opcode : Nat) (rest x : Bytes) :
    processFrame p fin opcode (rest ++ x) = (processFrame p fin opcode rest).map (.append x) := by
  unfold processFrame
  split
  · split
    · split <;> rfl
    · split <;> rfl
  · dsimp only
    split
    · rfl
    · rename_i opcode' q _
      split
      · rfl
      split
      · rfl
      split
      · cases q.sendPongFrame <;> rfl
      split <;> rfl

/-- More input does not change what `readFrame` does. -/
theorem readFrame_append (h : p.parseFrame buffer ≠ some .more) (x : Bytes) :
    p.readFrame (buffer ++ x) = (p.readFrame buffer).map (.append x) := by
  have hreads := parseFrame_reads p buffer x
  obtain ⟨part, hpart, hok⟩ := hreads.isSome
  have happend := hreads.append part hpart (by rintro rfl; exact h hpart)
  unfold readFrame
  rw [happend, hpart]
  cases part with
  | more => exact absurd hpart h
  | failed => rfl
  | ready f =>
    obtain ⟨-, hle, -⟩ := hok f rfl
    show processFrame _ _ _ ((buffer ++ x).drop f.size) = _
    rw [List.drop_append_of_le_length hle]
    exact processFrame_append _ _ _ _ x

/-! ## The reader -/

/-- What is observed of a connection. -/
inductive Heard where
  | code (c : WebSocketRetCode)
  | message (m : Bytes)
  | sent (o : Output)
deriving DecidableEq, Repr

/-- How a connection ends. -/
inductive Ended where
  | error
  | peerClosed
  | fault
deriving DecidableEq, Repr

/-- What is given to an output callback that returns at once, what the function
returns, and the object then. -/
def Call.finish : Call → List Output × Result × WebSocketProtocol
  | .returned r p => ([], r, p)
  | .output o k p => ([o], (p.resume k).1, (p.resume k).2)

/-- What a call of `recvMessage` that has come to a result is to a reader. -/
def ofCall (c : Call) (rest : Bytes) : Action UInt8 WebSocketProtocol Heard Ended :=
  match c.finish with
  | (sent, .code .peerClosed, q) => .halt .peerClosed q (sent.map .sent ++ [.code .peerClosed])
  | (sent, .code code, q) => .next q rest (sent.map .sent ++ [.code code])
  | (sent, _, q) => .halt .fault q (sent.map .sent)

/-- What a frame that has been handled is to a reader. -/
def ofHandler (p : WebSocketProtocol) :
    Option Handler → Action UInt8 WebSocketProtocol Heard Ended
  | none => .halt .fault p []
  | some (.call c rest) => ofCall c rest
  | some (.ret .more _ _) => .wait
  | some (.ret .failed q _) => .halt .error { q with status := .pendingError } [.code .error]
  | some (.ret .event q rest) => .next q rest [.code q.retCode]
  | some (.ret .done q rest) =>
    if q.status = .finished then
      .next q.retrieveMessage.2 rest [.code .messageReady, .message q.message]
    else
      .next q rest []

/-- One frame. -/
def step (p : WebSocketProtocol) (buffer : Bytes) :
    Action UInt8 WebSocketProtocol Heard Ended :=
  ofHandler p (p.readFrame buffer)

theorem ofCall_persists (c : Call) (rest x : Bytes) :
    (ofCall c rest).Persists x (ofCall c (rest ++ x)) := by
  unfold ofCall
  split
  · exact .halt
  · exact .next
  · exact .halt

/-- More input does not change what a step does. -/
theorem step_stable : Stable step fun _ => True := by
  refine .of_persists (fun p buffer x _ => ?_) fun _ _ => trivial
  unfold step
  by_cases hmore : p.parseFrame buffer = some .more
  · have hread : p.readFrame buffer = some (.ret .more p buffer) := by
      rw [readFrame, hmore]
    rw [hread]
    exact .wait
  · rw [readFrame_append hmore x]
    have hcases := readFrame_cases p buffer
    generalize p.readFrame buffer = r at hcases
    cases hcases with
    | more h => exact absurd h hmore
    | malformed => exact .halt
    | failed => exact .halt
    | fragment =>
      simp only [Option.map_some, Handler.append, ofHandler]
      split <;> exact .next
    | data =>
      simp only [Option.map_some, Handler.append, ofHandler]
      split <;> exact .next
    | close => exact ofCall_persists _ _ x
    | ping =>
      rename_i f last _
      cases (p.taken f last).sendPongFrame with
      | none => exact .halt
      | some c => exact ofCall_persists c _ x
    | pong => exact .next

end WebSocketProtocol

end Brickred
