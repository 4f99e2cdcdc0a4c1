import Brickred.Protocol.WebSocketAccept

/-!
# Frames of a peer

What an object that has kept nothing does with the frames that an object of the other
role sends, and with a part of one.
-/

namespace Brickred

open Incremental

namespace WebSocketProtocol

variable {p q : WebSocketProtocol} {f : Frame} {rest x z : Bytes}

/-- A connected object that has kept nothing of a message or a control frame. -/
structure Idle (p : WebSocketProtocol) : Prop where
  connected : p.status = .connected
  control : p.controlMessage = []
  message : p.message = []
  opcode : p.lastOpCode = none
  outputCb : p.outputCb = true

/-- What two states of an object have in common. -/
structure Like (p q : WebSocketProtocol) : Prop where
  isClient : q.isClient = p.isClient
  messageSizeMax : q.messageSizeMax = p.messageSizeMax

/-- A frame that a peer sends to an object of this role and with this limit. -/
structure Frame.Expected (isClient : Bool) (limit : Nat) (f : Frame) : Prop where
  sent : f.IsSent (!isClient) f.opcode.val f.payload
  opcode : f.opcode.val = 2 ∨ f.opcode.val = 8 ∨ f.opcode.val = 9 ∨ f.opcode.val = 10
  data : f.opcode.val = 2 → f.payload.length ≤ limit ∧ f.payload.length < 2 ^ 63
  control : f.opcode.val ≠ 2 → f.payload = []

theorem Frame.Expected.legal (h : f.Expected p.isClient p.messageSizeMax) (hp : Idle p) :
    f.Legal p.isClient p.messageSizeMax p.message.length := by
  have hsmall : f.payload.length < 2 ^ 63 := by
    by_cases hdata : f.opcode.val = 2
    · exact (h.data hdata).2
    · rw [h.control hdata]
      decide
  have hlegal : f.Legal (!!p.isClient) p.messageSizeMax 0 := h.sent.legal hsmall
    (fun hge => by rw [h.control (by omega)]; decide)
    (fun hlt => by
      have hopcode := h.opcode
      rw [Nat.zero_add]
      exact (h.data (by omega)).1)
  rw [Bool.not_not] at hlegal
  rw [hp.message]
  exact hlegal

theorem peer_data (hp : Idle p) (h : f.Expected p.isClient p.messageSizeMax)
    (hopcode : f.opcode.val = 2) :
    step p f.encode = .next p [] [.code .messageReady, .message f.payload] := by
  have hself : { p with message := [] } = p := by
    rw [← hp.message]
  have hstep := step_data (h.legal hp) h.sent.fin (.inr hopcode) hp.opcode hp.connected []
  rwa [List.append_nil, hself, hp.message, List.nil_append] at hstep

/-- A ping is answered unless a close frame has been sent. -/
theorem peer_ping (hp : Idle p) (h : f.Expected p.isClient p.messageSizeMax)
    (hopcode : f.opcode.val = 9) :
    ∃ (q : WebSocketProtocol) (g : Option Frame),
      step p f.encode = .next q []
        (g.toList.map (fun g => .sent (.frame 10 g.encode)) ++ [.code .pingFrame]) ∧
      Idle q ∧ Like p q ∧ q.closeFrameSent = p.closeFrameSent ∧
      (g = none ↔ p.closeFrameSent = true) ∧ ∀ g' ∈ g, g'.IsSent p.isClient 10 [] := by
  have hempty : f.payload = [] := h.control (by omega)
  have hself : { p with controlMessage := [] } = p := by
    rw [← hp.control]
  have hstep := step_control (h.legal hp) (by omega) hp.control []
  rw [List.append_nil, if_neg (by omega), if_pos hopcode, hempty, hself] at hstep
  cases hclose : p.closeFrameSent with
  | true =>
    have hsend : p.sendPongFrame = some (p.goOn .ponged) := by
      unfold sendPongFrame
      rw [if_neg (not_not.mpr hp.connected), if_pos hclose]
    rw [hsend] at hstep
    exact ⟨_, none, hstep, ⟨hp.connected, rfl, hp.message, hp.opcode, hp.outputCb⟩, ⟨rfl, rfl⟩,
      hclose, by simp, nofun⟩
  | false =>
    obtain ⟨g, random, hg, hsend⟩ :=
      sendPongFrame_eq hp.connected hclose hp.outputCb (by rw [hp.control]; decide)
    rw [hsend] at hstep
    rw [hp.control] at hg
    refine ⟨_, some g, hstep, ⟨hp.connected, rfl, hp.message, hp.opcode, hp.outputCb⟩, ⟨rfl, rfl⟩,
      hclose, by simp, ?_⟩
    rintro _ ⟨⟩
    exact hg

theorem peer_pong (hp : Idle p) (h : f.Expected p.isClient p.messageSizeMax)
    (hopcode : f.opcode.val = 10) :
    ∃ q, step p f.encode = .next q [] [.code .pongFrame] ∧ Idle q ∧ Like p q ∧
      q.closeFrameSent = p.closeFrameSent := by
  have hstep := step_control (h.legal hp) (by omega) hp.control []
  rw [List.append_nil, if_neg (by omega), if_neg (by omega), if_pos hopcode] at hstep
  exact ⟨_, hstep, ⟨hp.connected, rfl, hp.message, hp.opcode, hp.outputCb⟩, ⟨rfl, rfl⟩, rfl⟩

/-- A close frame is answered unless one has been sent. -/
theorem peer_close (hp : Idle p) (h : f.Expected p.isClient p.messageSizeMax)
    (hopcode : f.opcode.val = 8) :
    ∃ (q : WebSocketProtocol) (g : Option Frame),
      step p f.encode = .halt .peerClosed q
        (g.toList.map (fun g => .sent (.frame 8 g.encode)) ++ [.code .peerClosed]) ∧
      q.status = .closed ∧ Like p q ∧ q.closeFrameSent = true ∧
      (g = none ↔ p.closeFrameSent = true) ∧ ∀ g' ∈ g, g'.IsSent p.isClient 8 [] := by
  have hempty : f.payload = [] := h.control (by omega)
  have hself : { p with controlMessage := [] } = p := by
    rw [← hp.control]
  have hstep := step_control (h.legal hp) (by omega) hp.control []
  rw [List.append_nil, if_pos hopcode, hempty, hself] at hstep
  cases hclose : p.closeFrameSent with
  | true =>
    have hsend : p.sendCloseFrame .closed = p.goOn .closed := by
      unfold sendCloseFrame
      rw [if_neg (not_not.mpr hp.connected), if_pos hclose]
    rw [hsend] at hstep
    exact ⟨_, none, hstep, rfl, ⟨rfl, rfl⟩, hclose, by simp, nofun⟩
  | false =>
    obtain ⟨g, hg, hsend⟩ := sendCloseFrame_eq hp.connected hclose hp.outputCb .closed
    rw [hsend] at hstep
    refine ⟨_, some g, hstep, rfl, ⟨rfl, rfl⟩, rfl, by simp, ?_⟩
    rintro _ ⟨⟩
    exact hg

/-- Part of a frame is not enough. -/
theorem step_part (h : f.Legal p.isClient p.messageSizeMax p.message.length)
    (hx : x ++ z = f.encode) (hz : z ≠ []) : step p x = .wait := by
  have hall := (parseFrame_encode p f []).1 h
  rw [List.append_nil, ← hx] at hall
  have hreads := parseFrame_reads p x z
  obtain ⟨part, hpart, hok⟩ := hreads.isSome
  have hmore : part = .more := by
    by_contra hne
    have happend := hreads.append part hpart hne
    cases part with
    | more => exact hne rfl
    | failed => cases hall.symm.trans happend
    | ready g =>
      have hsize : g.size = (x ++ z).length := by
        cases Option.some.inj (happend.symm.trans hall)
        rfl
      obtain ⟨-, hle, -⟩ := hok g rfl
      have hpos := List.length_pos_iff.mpr hz
      rw [List.length_append] at hsize
      omega
  unfold step readFrame
  rw [hpart, hmore]
  rfl

theorem parseFrame_congr (hlike : Like p q) (hmessage : q.message = p.message) (x : Bytes) :
    q.parseFrame x = p.parseFrame x := by
  unfold parseFrame readMaskKey
  rw [hlike.isClient, hlike.messageSizeMax, hmessage]

/-- An object waits because part of a frame is not enough. -/
theorem parseFrame_of_wait (h : step p x = .wait) : p.parseFrame x = some .more := by
  have hcall : ∀ (c : Call) (rest : Bytes), ofCall c rest ≠ .wait := by
    intro c rest
    unfold ofCall
    split <;> exact nofun
  have hcases := readFrame_cases p x
  unfold step at h
  generalize p.readFrame x = r at hcases h
  cases hcases with
  | more hmore => exact hmore
  | malformed | failed | pong => cases h
  | fragment | data =>
    unfold ofHandler at h
    dsimp only at h
    split at h <;> cases h
  | close => exact absurd h (hcall _ _)
  | @ping f last =>
    cases hpong : (p.taken f last).sendPongFrame with
    | none =>
      rw [hpong] at h
      cases h
    | some c =>
      rw [hpong] at h
      exact absurd h (hcall _ _)

/-- An object that has not read on waits still. -/
theorem step_wait_congr (hlike : Like p q) (hmessage : q.message = p.message)
    (h : step p x = .wait) : step q x = .wait := by
  unfold step readFrame
  rw [parseFrame_congr hlike hmessage, parseFrame_of_wait h]
  rfl

end WebSocketProtocol

end Brickred
