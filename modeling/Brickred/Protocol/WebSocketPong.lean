import Brickred.Protocol.WebSocketReassembly

/-!
# Pings and their answers

What a connected object sends when it reads a ping frame is read by any object of the
other role as a pong frame with the same payload.
-/

namespace Brickred

open Transition

namespace WebSocketProtocol

variable {p : WebSocketProtocol} {f g : Frame} {rest date : Bytes}

/-- A ping frame is copied, and answered. -/
theorem readFrame_ping (hping : f.opcode = 9) (hclean : p.controlMessage = [])
    (hlegal : f.Legal p.isClient p.messageSizeMax p.message.length) (rest : Bytes) :
    p.readFrame (f.encode ++ rest) =
      (sendPongFrame { p with controlMessage := f.payload }).map fun c => .call c rest := by
  have hval : f.opcode.val = 9 := by rw [hping]; rfl
  have hfin := (hlegal.control (by omega)).1
  unfold readFrame
  rw [(parseFrame_encode p f rest).1 hlegal]
  dsimp only
  rw [if_pos (by omega), hval, hfin, hclean, List.nil_append, List.drop_left]
  rfl

/-- A pong frame is copied, and forgotten. -/
theorem readFrame_pong (hpong : g.opcode = 10)
    (hlegal : g.Legal p.isClient p.messageSizeMax p.message.length) (rest : Bytes) :
    p.readFrame (g.encode ++ rest) =
      some (.ret .event { p with controlMessage := [], retCode := .pongFrame } rest) := by
  have hval : g.opcode.val = 10 := by rw [hpong]; rfl
  have hfin := (hlegal.control (by omega)).1
  unfold readFrame
  rw [(parseFrame_encode p g rest).1 hlegal]
  dsimp only
  rw [if_pos (by omega), hval, hfin, List.drop_left]
  rfl

/-- A call of `recvMessage` whose first frame is handled in the output callback. -/
theorem recvMessage_call {c : Call} {buffer : Bytes} (hstatus : p.status = .connected)
    (hread : p.readFrame buffer = some (.call c rest)) :
    p.recvMessage date buffer = some (c, rest) := by
  unfold recvMessage recvLoop handle
  rw [hstatus, hread]
  rfl

/-- **Ping and pong**: a connected object that has not sent a close frame passes one frame
to the callback for a ping frame, which an object of the other role reads as a pong frame
with the payload of the ping frame. -/
theorem session_ponged (hwhole : Whole p) (hmessage : p.message.length ≤ p.messageSizeMax)
    (hcontrol : p.controlMessage = []) {moves : List Move} {s : Session}
    (h : Run (Guarded Unnested Session.Steps) (.init p) moves s) (hrest : s.stack = [])
    (hstatus : s.object.status = .connected) (hclose : s.object.closeFrameSent = false)
    (hcb : s.object.outputCb = true) (hping : f.opcode = 9)
    (hlegal : f.Legal s.object.isClient s.object.messageSizeMax s.object.message.length)
    (date rest : Bytes) :
    ∃ (g : Frame) (q : WebSocketProtocol),
      s.object.recvMessage date (f.encode ++ rest) =
        some (.output (.frame 10 g.encode) .ponged q, rest) ∧
      (∀ q : WebSocketProtocol, (q.resume .ponged).1 = .code .pingFrame) ∧
      s.object.parseFrame (f.encode ++ rest) = some (.ready ⟨true, 9, f.payload, f.encode.length⟩) ∧
      ∀ (r : WebSocketProtocol) (tail : Bytes), r.isClient = !s.object.isClient →
        r.parseFrame (g.encode ++ tail) = some (.ready ⟨true, 10, f.payload, g.encode.length⟩) ∧
        r.readFrame (g.encode ++ tail) =
          some (.ret .event { r with controlMessage := [], retCode := .pongFrame } tail) := by
  obtain ⟨hready, -⟩ := session_ready hwhole hmessage hcontrol h hrest hstatus
  have hval : f.opcode.val = 9 := by rw [hping]; rfl
  obtain ⟨hfin, hsize⟩ := hlegal.control (by omega)
  obtain ⟨g, random, hg, hsend⟩ :=
    sendPongFrame_eq (p := { s.object with controlMessage := f.payload }) hstatus hclose hcb hsize
  have hread := readFrame_ping hping hready.control hlegal rest
  rw [hsend, Option.map_some] at hread
  have hparse := (parseFrame_encode s.object f rest).1 hlegal
  rw [hfin, hval] at hparse
  refine ⟨g, _, recvMessage_call hstatus hread, fun _ => rfl, hparse, fun r tail hrole => ?_⟩
  have hpong : g.opcode = 10 := Fin.ext hg.opcode
  have hlegal' : g.Legal r.isClient r.messageSizeMax r.message.length := by
    rw [hrole]
    exact hg.legal (show f.payload.length < 2 ^ 63 by omega) (fun _ => hsize) fun hlt => by omega
  have hparse' := (parseFrame_encode r g tail).1 hlegal'
  rw [hg.fin, hg.opcode, hg.payload] at hparse'
  exact ⟨hparse', readFrame_pong hpong hlegal' tail⟩

/-- A server that is sent a ping frame with a payload. -/
theorem session_ponged_two :
    let p : WebSocketProtocol := { construct true with status := .connected }
    let f : Frame := ⟨true, 0, 9, .short, some [1, 2, 3, 4], [5, 6], by decide, by decide⟩
    ∃ (g : Frame) (q : WebSocketProtocol),
      p.recvMessage [] (f.encode ++ []) = some (.output (.frame 10 g.encode) .ponged q, []) ∧
      ({ construct true with isClient := true } : WebSocketProtocol).parseFrame (g.encode ++ []) =
        some (.ready ⟨true, 10, [5, 6], g.encode.length⟩) := by
  intro p f
  have hwhole : Whole p := fun _ _ => ⟨nofun, fun _ _ => rfl⟩
  have hlegal : f.Legal p.isClient p.messageSizeMax p.message.length :=
    ⟨rfl, fun _ => ⟨rfl, by decide⟩, trivial, by decide, rfl⟩
  obtain ⟨g, q, hrecv, -, -, hpeer⟩ := session_ponged (s := .init p) hwhole (by decide) rfl .nil rfl
    rfl rfl rfl rfl hlegal [] []
  exact ⟨g, q, hrecv, (hpeer _ [] rfl).1⟩

end WebSocketProtocol

end Brickred
