import Brickred.Protocol.WebSocketFrame

/-!
# Frames that are sent

`Sends` says all that the four functions that send a frame can do, and the bytes they
send are those of a `Frame` that the peer takes for legal.
-/

namespace Brickred

namespace WebSocketProtocol

variable {p q : WebSocketProtocol} {k : Pending} {opcode : Nat} {c : Call}

/-- All that a function that sends a frame can do. -/
inductive Sends (p : WebSocketProtocol) (k : Pending) (opcode : Nat) : Call → Prop where
  /-- The connection is not open, or a close frame has been sent. -/
  | skipped : p.status ≠ .connected ∨ p.closeFrameSent = true → Sends p k opcode (p.goOn k)
  /-- There is no output callback. -/
  | muted {random : Nat → UInt8} {sent : Bool} : p.outputCb = false →
      (sent = true ↔ p.closeFrameSent = true ∨ opcode = 8) →
      Sends p k opcode (goOn { p with random, closeFrameSent := sent } k)
  | sent {random : Nat → UInt8} {text : Bytes} {sent : Bool} : p.status = .connected →
      p.closeFrameSent = false → p.outputCb = true → (sent = true ↔ opcode = 8) →
      Sends p k opcode (.output (.frame opcode text) k { p with random, closeFrameSent := sent })

/-- `if (output_cb_) { output_cb_(..); }` at the end of such a function. -/
theorem sends_emit (hstatus : p.status = .connected) (hclose : p.closeFrameSent = false)
    {sent : Bool} (hsent : sent = true ↔ opcode = 8) (random : Nat → UInt8) (text : Bytes) :
    Sends p k opcode
      (emit { p with random, closeFrameSent := sent } (.frame opcode text) k) := by
  show Sends p k opcode (if p.outputCb then _ else _)
  cases hcb : p.outputCb with
  | false =>
    rw [if_neg (by decide), ← hcb]
    exact .muted hcb (by simp [hsent, hclose])
  | true =>
    rw [if_pos rfl, ← hcb]
    exact .sent hstatus hclose hcb hsent

/-- The checks at the beginning of such a function. -/
theorem sends_guarded {c' : Call}
    (hguard : c = if p.status ≠ .connected then p.goOn k
      else if p.closeFrameSent then p.goOn k else c')
    (h : p.status = .connected → p.closeFrameSent = false → Sends p k opcode c') :
    Sends p k opcode c := by
  rw [hguard]
  split
  next hstatus => exact .skipped (.inl hstatus)
  next hstatus =>
    split
    next hclose => exact .skipped (.inr hclose)
    next hclose => exact h (not_not.mp hstatus) (Bool.eq_false_iff.mpr hclose)

theorem sendMessage_sends (p : WebSocketProtocol) (data : Bytes) :
    Sends p .sent 2 (p.sendMessage data) := by
  refine sends_guarded rfl fun hstatus hclose => ?_
  have hsent : p.closeFrameSent = true ↔ 2 = 8 := by simp [hclose]
  dsimp only
  split
  · exact sends_emit hstatus hclose hsent _ _
  · exact sends_emit hstatus hclose hsent _ _

theorem sendCloseFrame_sends (p : WebSocketProtocol) (k : Pending) :
    Sends p k 8 (p.sendCloseFrame k) :=
  sends_guarded rfl fun hstatus hclose => sends_emit hstatus hclose (by simp) _ _

theorem sendPingFrame_sends (p : WebSocketProtocol) : Sends p .sent 9 p.sendPingFrame :=
  sends_guarded rfl fun hstatus hclose => sends_emit hstatus hclose (by simp [hclose]) _ _

theorem sendPongFrame_sends (h : p.sendPongFrame = some c) : Sends p .ponged 10 c := by
  unfold sendPongFrame at h
  split at h
  · rename_i hstatus
    cases h
    exact .skipped (.inl hstatus)
  split at h
  · rename_i hclose
    cases h
    exact .skipped (.inr hclose)
  rename_i hstatus hclose
  rw [not_not] at hstatus
  rw [Bool.not_eq_true] at hclose
  have hsent : p.closeFrameSent = true ↔ 10 = 8 := by simp [hclose]
  split at h
  · rename_i hcb
    dsimp only at h
    split at h
    · split at h
      · cases h
      · cases h
        exact .sent hstatus hclose hcb hsent
    · split at h
      · cases h
      · cases h
        exact .sent hstatus hclose hcb hsent
  · rename_i hcb
    cases h
    exact .muted (by simpa using hcb) (by simp)

/-- A payload of a legal frame fits in the arrays. -/
theorem exists_sendPongFrame (h : p.controlMessage.length ≤ 125) :
    ∃ c, p.sendPongFrame = some c := by
  unfold sendPongFrame
  split
  · exact ⟨_, rfl⟩
  split
  · exact ⟨_, rfl⟩
  split
  · dsimp only
    split
    · rw [if_neg (by omega)]
      exact ⟨_, rfl⟩
    · rw [if_neg (by omega)]
      exact ⟨_, rfl⟩
  · exact ⟨_, rfl⟩

/-! ## What is sent -/

/-- A frame as this code sends it. -/
structure Frame.IsSent (isClient : Bool) (o : Nat) (data : Bytes) (f : Frame) : Prop where
  fin : f.fin = true
  rsv : f.rsv = 0
  opcode : f.opcode.val = o
  payload : f.payload = data
  form : f.form = .of data.length
  masked : f.key.isSome = isClient

theorem LengthForm.lt_bound_of {n : Nat} (h : n < 2 ^ 64) : n < (LengthForm.of n).bound := by
  unfold LengthForm.of
  split
  · assumption
  split
  · show n < 2 ^ 16
    omega
  · exact h

theorem LengthForm.shortest_of {n : Nat} (h : n < 2 ^ 63) : (LengthForm.of n).Shortest n := by
  unfold LengthForm.of
  split
  · trivial
  split
  · show 126 ≤ n
    omega
  · exact ⟨by omega, h⟩

/-- The peer takes it for legal if it fits. -/
theorem Frame.IsSent.legal {f : Frame} {isClient : Bool} {payload : Bytes} {limit size : Nat}
    (h : f.IsSent isClient opcode payload) (hlt : payload.length < 2 ^ 63)
    (hcontrol : 8 ≤ opcode → payload.length ≤ 125)
    (hfits : opcode < 8 → size + payload.length ≤ limit) : f.Legal (!isClient) limit size where
  rsv := h.rsv
  control := by
    rw [h.opcode, h.payload]
    exact fun hc => ⟨h.fin, hcontrol hc⟩
  shortest := by
    rw [h.form, h.payload]
    exact LengthForm.shortest_of hlt
  fits := by
    rw [h.opcode, h.payload]
    exact hfits
  masked := by rw [h.masked, Bool.not_not]

theorem exists_isSent (opcode : Fin 16) (key : Option Bytes) (hkey : ∀ k ∈ key, k.length = 4)
    (payload : Bytes) (hlt : payload.length < 2 ^ 64) :
    ∃ f : Frame, f.IsSent key.isSome opcode.val payload ∧
      f.encode = UInt8.ofNat (128 + opcode.val) ::
        UInt8.ofNat ((if key.isSome then 128 else 0) +
          (LengthForm.of payload.length).code payload.length) ::
        ((LengthForm.of payload.length).extended payload.length ++ key.getD [] ++
          maskWith key payload) :=
  ⟨⟨true, 0, opcode, .of payload.length, key, payload, hkey, LengthForm.lt_bound_of hlt⟩,
    ⟨rfl, rfl, rfl, rfl, rfl, rfl⟩, by simp [Frame.encode, Frame.first, Frame.second, Frame.body]⟩

/-- The flag of the second byte. -/
theorem or_flag (isClient : Bool) (code : Fin 128) :
    (if isClient then 0x80 else 0 : UInt8) ||| UInt8.ofNat code.val =
      UInt8.ofNat ((if isClient then 128 else 0) + code.val) := by
  revert isClient code
  decide

/-- The length as `sendMessage` writes it. -/
theorem length_written (isClient : Bool) (n : Nat) :
    (let flag : UInt8 := if isClient then 0x80 else 0
      if n < 126 then [flag ||| UInt8.ofNat n]
      else if n ≤ 65535 then (flag ||| 126) :: DynamicBuffer.encodeInt 2 false n
      else (flag ||| 127) :: DynamicBuffer.encodeInt 8 false n) =
    UInt8.ofNat ((if isClient then 128 else 0) + (LengthForm.of n).code n) ::
      (LengthForm.of n).extended n := by
  dsimp only
  unfold LengthForm.of
  split
  · rename_i h
    exact congrArg (· :: []) (or_flag isClient ⟨n, by omega⟩)
  split
  · exact congrArg (· :: _) (or_flag isClient ⟨126, by decide⟩)
  · exact congrArg (· :: _) (or_flag isClient ⟨127, by decide⟩)

/-- An open connection sends a message as one frame. -/
theorem sendMessage_eq (hstatus : p.status = .connected) (hclose : p.closeFrameSent = false)
    (hcb : p.outputCb = true) {data : Bytes} (hlt : data.length < 2 ^ 64) :
    ∃ (f : Frame) (random : Nat → UInt8), f.IsSent p.isClient 2 data ∧
      p.sendMessage data = .output (.frame 2 f.encode) .sent { p with random } := by
  have hlength := length_written p.isClient data.length
  unfold sendMessage
  rw [if_neg (not_not.mpr hstatus), if_neg (by simp [hclose])]
  dsimp only at hlength ⊢
  rw [hlength]
  by_cases hclient : p.isClient = true
  · have hkey : ∀ k ∈ some (p.draw 4).1, k.length = 4 := by
      rintro _ ⟨⟩
      rfl
    obtain ⟨f, hf, hencode⟩ := exists_isSent 2 _ hkey _ hlt
    refine ⟨f, (p.draw 4).2.random, by rwa [hclient], ?_⟩
    rw [if_pos hclient, if_pos hclient, hencode]
    show (if p.outputCb then _ else _) = _
    rw [if_pos hcb]
    rfl
  · obtain ⟨f, hf, hencode⟩ := exists_isSent 2 none nofun _ hlt
    refine ⟨f, p.random, by rwa [Bool.eq_false_iff.mpr hclient], ?_⟩
    rw [if_neg hclient, if_neg hclient, hencode, Option.getD_none, List.append_nil]
    show (if p.outputCb then _ else _) = _
    rw [if_pos hcb]
    rfl

/-- An open connection sends a close frame once. -/
theorem sendCloseFrame_eq (hstatus : p.status = .connected) (hclose : p.closeFrameSent = false)
    (hcb : p.outputCb = true) (k : Pending) :
    ∃ f : Frame, f.IsSent p.isClient 8 [] ∧
      p.sendCloseFrame k = .output (.frame 8 f.encode) k { p with closeFrameSent := true } := by
  unfold sendCloseFrame
  rw [if_neg (not_not.mpr hstatus), if_neg (by simp [hclose])]
  show ∃ f : Frame, _ ∧ (if p.outputCb then _ else _) = _
  rw [if_pos hcb]
  by_cases hclient : p.isClient = true
  · obtain ⟨f, hf, hencode⟩ := exists_isSent 8 (some [0, 0, 0, 0]) (by simp) [] (by decide)
    refine ⟨f, by rwa [hclient], ?_⟩
    rw [if_pos hclient, hencode]
    rfl
  · obtain ⟨f, hf, hencode⟩ := exists_isSent 8 none nofun [] (by decide)
    refine ⟨f, by rwa [Bool.eq_false_iff.mpr hclient], ?_⟩
    rw [if_neg hclient, hencode]
    rfl

theorem sendPingFrame_eq (hstatus : p.status = .connected) (hclose : p.closeFrameSent = false)
    (hcb : p.outputCb = true) :
    ∃ f : Frame, f.IsSent p.isClient 9 [] ∧
      p.sendPingFrame = .output (.frame 9 f.encode) .sent p := by
  unfold sendPingFrame
  rw [if_neg (not_not.mpr hstatus), if_neg (by simp [hclose])]
  show ∃ f : Frame, _ ∧ (if p.outputCb then _ else _) = _
  rw [if_pos hcb]
  by_cases hclient : p.isClient = true
  · obtain ⟨f, hf, hencode⟩ := exists_isSent 9 (some [0, 0, 0, 0]) (by simp) [] (by decide)
    refine ⟨f, by rwa [hclient], ?_⟩
    rw [if_pos hclient, hencode]
    rfl
  · obtain ⟨f, hf, hencode⟩ := exists_isSent 9 none nofun [] (by decide)
    refine ⟨f, by rwa [Bool.eq_false_iff.mpr hclient], ?_⟩
    rw [if_neg hclient, hencode]
    rfl

/-- An open connection answers a ping with its payload. -/
theorem sendPongFrame_eq (hstatus : p.status = .connected) (hclose : p.closeFrameSent = false)
    (hcb : p.outputCb = true) (hsize : p.controlMessage.length ≤ 125) :
    ∃ (f : Frame) (random : Nat → UInt8), f.IsSent p.isClient 10 p.controlMessage ∧
      p.sendPongFrame = some (.output (.frame 10 f.encode) .ponged { p with random }) := by
  have hform : LengthForm.of p.controlMessage.length = .short := if_pos (by omega)
  unfold sendPongFrame
  rw [if_neg (not_not.mpr hstatus), if_neg (by simp [hclose]), if_pos hcb]
  by_cases hclient : p.isClient = true
  · have hkey : ∀ k ∈ some (p.draw 4).1, k.length = 4 := by
      rintro _ ⟨⟩
      rfl
    obtain ⟨f, hf, hencode⟩ := exists_isSent 10 _ hkey p.controlMessage (by omega)
    refine ⟨f, (p.draw 4).2.random, by rwa [hclient], ?_⟩
    have hcode : UInt8.ofNat p.controlMessage.length ||| 0x80 =
        UInt8.ofNat (128 + p.controlMessage.length) :=
      (UInt8.or_comm _ _).trans (or_flag true ⟨p.controlMessage.length, by omega⟩)
    rw [if_pos hclient, if_neg (by omega), hencode, hform, hcode]
    rfl
  · obtain ⟨f, hf, hencode⟩ :=
      exists_isSent 10 none nofun p.controlMessage (by omega)
    refine ⟨f, p.random, by rwa [Bool.eq_false_iff.mpr hclient], ?_⟩
    rw [if_neg hclient, if_neg (by omega), hencode, hform]
    show some (Call.output (.frame 10 (_ :: UInt8.ofNat p.controlMessage.length :: _)) _ p) =
      some (.output (.frame 10 (_ :: UInt8.ofNat (0 + p.controlMessage.length) :: _)) _ _)
    rw [Nat.zero_add]
    rfl

end WebSocketProtocol

end Brickred
