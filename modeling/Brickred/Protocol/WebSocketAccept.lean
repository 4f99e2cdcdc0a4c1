import Brickred.Protocol.WebSocketFeed
import Brickred.Protocol.WebSocketFrame

/-!
# Which frames are accepted

One lemma for each kind of frame says what the reader does with it. A frame is
`Acceptable` by what has been received before it; the code errs on two kinds of frames
(`Misjudged`), and only on these.
-/

namespace Brickred

open Incremental

namespace WebSocketProtocol

/-- What `readFrame` takes from the bytes of a frame. -/
def Frame.incoming (f : Frame) : Incoming := ⟨f.fin, f.opcode.val, f.payload, f.encode.length⟩

/-- How `recvMessage` leaves a connected object: no payload of a control frame is kept,
and what is remembered is the opcode of a fragment. -/
structure Ready (p : WebSocketProtocol) : Prop where
  connected : p.status = .connected
  control : p.controlMessage = []
  opcode : ∀ o ∈ p.lastOpCode, 0 < o ∧ o < 8

variable {p : WebSocketProtocol} {f : Frame} {rest : Bytes}

/-- The reader on the bytes of a frame that is legal. -/
theorem step_legal (h : f.Legal p.isClient p.messageSizeMax p.message.length) (rest : Bytes) :
    step p (f.encode ++ rest) =
      ofHandler p (processFrame (p.copied f.incoming) f.fin f.opcode.val rest) := by
  unfold step readFrame
  rw [(parseFrame_encode p f rest).1 h]
  show ofHandler p (processFrame _ _ _ ((f.encode ++ rest).drop f.encode.length)) = _
  rw [List.drop_left]
  rfl

theorem step_illegal (h : ¬ f.Legal p.isClient p.messageSizeMax p.message.length) (rest : Bytes) :
    step p (f.encode ++ rest) =
      .halt .error { p with status := .pendingError } [.code .error] := by
  unfold step readFrame
  rw [(parseFrame_encode p f rest).2 h]
  rfl

theorem copied_data (h : f.opcode.val < 8) :
    p.copied f.incoming = { p with message := p.message ++ f.payload } :=
  if_neg (Nat.not_le.mpr h)

theorem copied_control (h : 8 ≤ f.opcode.val) :
    p.copied f.incoming = { p with controlMessage := p.controlMessage ++ f.payload } :=
  if_pos h

/-- The first fragment of a message. -/
theorem step_first (hlegal : f.Legal p.isClient p.messageSizeMax p.message.length)
    (hfin : f.fin = false) (hpos : 0 < f.opcode.val) (hdata : f.opcode.val < 8)
    (hopen : p.lastOpCode = none) (hp : p.status = .connected) (rest : Bytes) :
    step p (f.encode ++ rest) = .next
      { p with message := p.message ++ f.payload, lastOpCode := some f.opcode.val } rest [] := by
  rw [step_legal hlegal, copied_data hdata, processFrame, if_pos hfin, if_pos (by omega),
    if_neg (by simpa using hopen)]
  show (if p.status = .finished then _ else _) = _
  rw [if_neg (by simp [hp])]

/-- A fragment of a message that is open. -/
theorem step_middle (hlegal : f.Legal p.isClient p.messageSizeMax p.message.length)
    (hfin : f.fin = false) (hzero : f.opcode.val = 0) (hopen : p.lastOpCode ≠ none)
    (hp : p.status = .connected) (rest : Bytes) :
    step p (f.encode ++ rest) = .next { p with message := p.message ++ f.payload } rest [] := by
  rw [step_legal hlegal, copied_data (by omega), processFrame, if_pos hfin,
    if_neg (not_not.mpr hzero), if_neg hopen]
  show (if p.status = .finished then _ else _) = _
  rw [if_neg (by simp [hp])]

/-- A message in one frame. -/
theorem step_data (hlegal : f.Legal p.isClient p.messageSizeMax p.message.length)
    (hfin : f.fin = true) (hopcode : f.opcode.val = 1 ∨ f.opcode.val = 2)
    (hopen : p.lastOpCode = none) (hp : p.status = .connected) (rest : Bytes) :
    step p (f.encode ++ rest) = .next { p with message := [] } rest
      [.code .messageReady, .message (p.message ++ f.payload)] := by
  have hstatus : ({ p with message := [] } : WebSocketProtocol) =
      { p with message := [], status := .connected } := by
    rw [← hp]
  rw [step_legal hlegal, copied_data (by omega), processFrame, if_neg (by simp [hfin])]
  dsimp only
  rw [if_neg (by omega), if_neg (fun h => h.2 hopen)]
  dsimp only
  rw [if_pos hopcode, hstatus]
  rfl

/-- The last fragment of a message. -/
theorem step_last (hlegal : f.Legal p.isClient p.messageSizeMax p.message.length)
    (hfin : f.fin = true) (hzero : f.opcode.val = 0) {o : Nat} (hopen : p.lastOpCode = some o)
    (ho : o = 1 ∨ o = 2) (hp : p.status = .connected) (rest : Bytes) :
    step p (f.encode ++ rest) = .next { p with message := [], lastOpCode := none } rest
      [.code .messageReady, .message (p.message ++ f.payload)] := by
  have hstatus : ({ p with message := [], lastOpCode := none } : WebSocketProtocol) =
      { p with message := [], lastOpCode := none, status := .connected } := by
    rw [← hp]
  rw [step_legal hlegal, copied_data (by omega), processFrame, if_neg (by simp [hfin])]
  dsimp only
  rw [if_pos hzero, hopen]
  dsimp only [Option.map_some]
  rw [if_pos ho, hstatus]
  rfl

/-- A control frame, up to what its opcode says. -/
theorem step_control (hlegal : f.Legal p.isClient p.messageSizeMax p.message.length)
    (hcontrol : 8 ≤ f.opcode.val) (hnil : p.controlMessage = []) (rest : Bytes) :
    step p (f.encode ++ rest) =
      ofHandler p
        (if f.opcode.val = 8 then
          some (.call (sendCloseFrame { p with controlMessage := f.payload } .closed) rest)
        else if f.opcode.val = 9 then
          (sendPongFrame { p with controlMessage := f.payload }).map fun c => .call c rest
        else if f.opcode.val = 10 then
          some (.ret .event { p with controlMessage := [], retCode := .pongFrame } rest)
        else some (.ret .failed { p with controlMessage := f.payload } rest)) := by
  have hfin := (hlegal.control hcontrol).1
  rw [step_legal hlegal, copied_control hcontrol, processFrame, if_neg (by simp [hfin])]
  dsimp only
  rw [if_neg (by omega), if_neg (by omega)]
  dsimp only
  rw [if_neg (by omega), hnil, List.nil_append]

/-- A data frame where its opcode has no place. -/
theorem processFrame_misplaced (q : WebSocketProtocol) (fin : Bool) {opcode : Nat} (rest : Bytes)
    (h : (opcode = 0 ∧ q.lastOpCode = none) ∨
      (0 < opcode ∧ opcode < 8 ∧ q.lastOpCode ≠ none)) :
    processFrame q fin opcode rest = some (.ret .failed q rest) := by
  unfold processFrame
  cases fin with
  | false =>
    rw [if_pos rfl]
    obtain ⟨rfl, hopen⟩ | ⟨hpos, hlt, hopen⟩ := h
    · rw [if_neg (by simp), if_pos hopen]
    · rw [if_pos (by omega), if_pos hopen]
  | true =>
    rw [if_neg (by decide)]
    dsimp only
    obtain ⟨rfl, hopen⟩ | ⟨hpos, hlt, hopen⟩ := h
    · rw [if_pos rfl, hopen]
      rfl
    · rw [if_neg (by omega), if_pos ⟨hlt, hopen⟩]

/-- The last fragment, or the only one, of a message whose opcode is reserved. -/
theorem processFrame_reserved (q : WebSocketProtocol) (opcode : Nat) (rest : Bytes)
    (h : 3 ≤ opcode) (hopen : opcode < 8 → q.lastOpCode = none) (h₁₁ : 8 ≤ opcode → 11 ≤ opcode) :
    processFrame q true opcode rest = some (.ret .failed q rest) := by
  unfold processFrame
  rw [if_neg (by decide)]
  dsimp only
  rw [if_neg (by omega), if_neg (fun hdata => hdata.2 (hopen hdata.1))]
  dsimp only
  rw [if_neg (by omega), if_neg (by omega), if_neg (by omega), if_neg (by omega)]

theorem processFrame_last_reserved (q : WebSocketProtocol) {o : Nat} (rest : Bytes)
    (hopen : q.lastOpCode = some o) (h : 3 ≤ o) (hlt : o < 8) :
    processFrame q true 0 rest = some (.ret .failed { q with lastOpCode := none } rest) := by
  unfold processFrame
  rw [if_neg (by decide)]
  dsimp only
  rw [if_pos rfl, hopen]
  dsimp only [Option.map_some]
  rw [if_neg (by omega), if_neg (by omega), if_neg (by omega), if_neg (by omega)]

theorem step_failed (hlegal : f.Legal p.isClient p.messageSizeMax p.message.length)
    {q : WebSocketProtocol}
    (h : processFrame (p.copied f.incoming) f.fin f.opcode.val [] = some (.ret .failed q [])) :
    step p f.encode = .halt .error { q with status := .pendingError } [.code .error] := by
  rw [← List.append_nil f.encode, step_legal hlegal, h]
  rfl

theorem lastOpCode_copied (p : WebSocketProtocol) (f : Incoming) :
    (p.copied f).lastOpCode = p.lastOpCode := by
  rw [← taken_self, lastOpCode_taken]

/-! ## The rules -/

/-- What is remembered of a message that has begun. -/
structure Progress where
  opened : Option Nat
  size : Nat

def progress (p : WebSocketProtocol) : Progress := ⟨p.lastOpCode, p.message.length⟩

/-- A frame that breaks no rule, after what has been received. -/
structure Frame.Acceptable (isClient : Bool) (limit : Nat) (s : Progress) (f : Frame) : Prop where
  legal : f.Legal isClient limit s.size
  opcode : f.opcode.val ≤ 2 ∨ (8 ≤ f.opcode.val ∧ f.opcode.val ≤ 10)
  continues : f.opcode.val = 0 → s.opened ≠ none
  begins : 0 < f.opcode.val → f.opcode.val < 8 → s.opened = none

def Frame.after (s : Progress) (f : Frame) : Progress :=
  if 8 ≤ f.opcode.val then s
  else if f.fin then ⟨none, 0⟩
  else ⟨if f.opcode.val = 0 then s.opened else some f.opcode.val, s.size + f.payload.length⟩

/-- What the reader gets wrong: a first fragment may have a reserved opcode, and the
message is then refused when it ends. -/
def Frame.Misjudged (isClient : Bool) (limit : Nat) (s : Progress) (f : Frame) : Prop :=
  (f.Legal isClient limit s.size ∧ f.fin = false ∧ 3 ≤ f.opcode.val ∧ f.opcode.val < 8 ∧
    s.opened = none) ∨
  (f.Acceptable isClient limit s ∧ f.fin = true ∧ f.opcode.val = 0 ∧ ∃ o ∈ s.opened, 3 ≤ o)

section Rules

variable (isClient : Bool) (limit : Nat)

/-- Frames that break no rule, one after another. -/
def AllAcceptable : Progress → List Frame → Prop
  | _, [] => True
  | s, f :: fs => f.Acceptable isClient limit s ∧ AllAcceptable (f.after s) fs

/-- No frame that comes after acceptable frames, none of them a close frame, is
misjudged. -/
def NoneMisjudged : Progress → List Frame → Prop
  | _, [] => True
  | s, f :: fs => ¬ f.Misjudged isClient limit s ∧
      (f.Acceptable isClient limit s → f.opcode.val ≠ 8 → NoneMisjudged (f.after s) fs)

end Rules

/-- The frames as a stream. -/
def wire (fs : List Frame) : Bytes := (fs.map Frame.encode).flatten

/-- What a frame that is taken makes of the object. -/
structure Took (p : WebSocketProtocol) (f : Frame) (q : WebSocketProtocol) : Prop where
  ready : Ready q
  progress : q.progress = f.after p.progress
  isClient : q.isClient = p.isClient
  messageSizeMax : q.messageSizeMax = p.messageSizeMax

/-- A data frame that is acceptable is taken. -/
theorem step_acceptable_data (hp : Ready p)
    (h : f.Acceptable p.isClient p.messageSizeMax p.progress)
    (hjudged : ¬ f.Misjudged p.isClient p.messageSizeMax p.progress) (hdata : f.opcode.val < 8) :
    ∃ q out, step p f.encode = .next q [] out ∧ Took p f q ∧ Heard.code .error ∉ out := by
  have hle : f.opcode.val ≤ 2 := by
    obtain hle | ⟨hge, -⟩ := h.opcode
    · exact hle
    · omega
  have hafter : f.after p.progress = if f.fin then ⟨none, 0⟩ else
      ⟨if f.opcode.val = 0 then p.lastOpCode else some f.opcode.val,
        p.message.length + f.payload.length⟩ :=
    if_neg (by omega)
  rw [← List.append_nil f.encode]
  cases hfin : f.fin with
  | false =>
    rw [hfin, if_neg (by decide)] at hafter
    have hlength : (p.message ++ f.payload).length = p.message.length + f.payload.length :=
      List.length_append
    by_cases hzero : f.opcode.val = 0
    · refine ⟨_, _, step_middle h.legal hfin hzero (h.continues hzero) hp.connected [], ?_, nofun⟩
      refine ⟨⟨hp.connected, hp.control, hp.opcode⟩, ?_, rfl, rfl⟩
      rw [hafter, if_pos hzero, progress, hlength]
    · have hpos : 0 < f.opcode.val := Nat.pos_of_ne_zero hzero
      refine ⟨_, _, step_first h.legal hfin hpos hdata (h.begins hpos hdata) hp.connected [], ?_,
        nofun⟩
      refine ⟨⟨hp.connected, hp.control, ?_⟩, ?_, rfl, rfl⟩
      · rintro o ho
        cases ho
        exact ⟨hpos, hdata⟩
      · rw [hafter, if_neg hzero, progress, hlength]
  | true =>
    rw [hfin, if_pos rfl] at hafter
    by_cases hzero : f.opcode.val = 0
    · obtain ⟨o, ho⟩ := Option.ne_none_iff_exists'.mp (h.continues hzero)
      have hopcode : o = 1 ∨ o = 2 := by
        have hpos := hp.opcode o ho
        have hlt : ¬ 3 ≤ o := fun hge => hjudged (.inr ⟨h, hfin, hzero, o, ho, hge⟩)
        omega
      refine ⟨_, _, step_last h.legal hfin hzero ho hopcode hp.connected [], ?_, by simp⟩
      exact ⟨⟨hp.connected, hp.control, nofun⟩, hafter.symm, rfl, rfl⟩
    · have hpos : 0 < f.opcode.val := Nat.pos_of_ne_zero hzero
      have hopen := h.begins hpos hdata
      refine ⟨_, _, step_data h.legal hfin (by omega) hopen hp.connected [], ?_, by simp⟩
      refine ⟨⟨hp.connected, hp.control, hp.opcode⟩, ?_, rfl, rfl⟩
      rw [hafter]
      exact congrArg (fun o => Progress.mk o 0) hopen

/-- A control frame that is acceptable, and not a close frame, is taken. -/
theorem step_acceptable_control (hp : Ready p)
    (h : f.Acceptable p.isClient p.messageSizeMax p.progress) (hcontrol : 8 ≤ f.opcode.val)
    (hclose : f.opcode.val ≠ 8) :
    ∃ q out, step p f.encode = .next q [] out ∧ Took p f q ∧ Heard.code .error ∉ out := by
  have hafter : f.after p.progress = p.progress := if_pos hcontrol
  have hle : f.opcode.val ≤ 10 := by
    obtain hle | ⟨-, hle⟩ := h.opcode <;> omega
  have hstep := step_control h.legal hcontrol hp.control []
  rw [List.append_nil, if_neg hclose] at hstep
  by_cases hping : f.opcode.val = 9
  · rw [if_pos hping] at hstep
    obtain ⟨c, hc⟩ := exists_sendPongFrame (p := { p with controlMessage := f.payload })
      (h.legal.control hcontrol).2
    obtain ⟨sent, random, closeFrameSent, hfinish⟩ := (sendPongFrame_sends hc).finish
    have hnext : step p f.encode =
        .next (resume { p with controlMessage := f.payload, random, closeFrameSent } .ponged).2 []
          (sent.map .sent ++ [.code .pingFrame]) := by
      rw [hstep, hc, Option.map_some, ofHandler, ofCall, hfinish]
      rfl
    refine ⟨_, _, hnext, ?_, by simp⟩
    exact ⟨⟨hp.connected, rfl, hp.opcode⟩, hafter.symm, rfl, rfl⟩
  · rw [if_neg hping, if_pos (by omega)] at hstep
    refine ⟨_, _, hstep, ?_, by simp⟩
    exact ⟨⟨hp.connected, rfl, hp.opcode⟩, hafter.symm, rfl, rfl⟩

/-- A frame that is not acceptable is refused. -/
theorem step_unacceptable (h : ¬ f.Acceptable p.isClient p.messageSizeMax p.progress)
    (hjudged : ¬ f.Misjudged p.isClient p.messageSizeMax p.progress) :
    ∃ q, step p f.encode = .halt .error q [.code .error] := by
  by_cases hlegal : f.Legal p.isClient p.messageSizeMax p.message.length
  · have hcopied := lastOpCode_copied p f.incoming
    by_cases hzero : f.opcode.val = 0 ∧ p.lastOpCode = none
    · exact ⟨_, step_failed hlegal (processFrame_misplaced _ _ _ (.inl (by rwa [hcopied])))⟩
    by_cases hbegun : 0 < f.opcode.val ∧ f.opcode.val < 8 ∧ p.lastOpCode ≠ none
    · exact ⟨_, step_failed hlegal (processFrame_misplaced _ _ _ (.inr (by rwa [hcopied])))⟩
    have hopcode : ¬ (f.opcode.val ≤ 2 ∨ (8 ≤ f.opcode.val ∧ f.opcode.val ≤ 10)) := fun hopcode =>
      h ⟨hlegal, hopcode, fun h₀ hn => hzero ⟨h₀, hn⟩,
        fun h₀ h₁ => Classical.not_not.mp fun hn => hbegun ⟨h₀, h₁, hn⟩⟩
    have hfin : f.fin = true := by
      by_contra hfin
      rw [Bool.not_eq_true] at hfin
      by_cases hcontrol : 8 ≤ f.opcode.val
      · exact absurd (hlegal.control hcontrol).1 (by simp [hfin])
      · exact hjudged (.inl ⟨hlegal, hfin, by omega, by omega,
          Classical.not_not.mp fun hn => hbegun ⟨by omega, by omega, hn⟩⟩)
    have hreserved := processFrame_reserved (p.copied f.incoming) f.opcode.val []
      (by omega) (fun hlt => hcopied.trans (Classical.not_not.mp fun hn =>
        hbegun ⟨by omega, hlt, hn⟩)) (by omega)
    rw [← hfin] at hreserved
    exact ⟨_, step_failed hlegal hreserved⟩
  · rw [← List.append_nil f.encode]
    exact ⟨_, step_illegal hlegal []⟩

/-- A frame that is misjudged is taken although it is bad, or refused although it is
not. -/
theorem step_misjudged (hp : Ready p)
    (h : f.Misjudged p.isClient p.messageSizeMax p.progress) :
    (¬ f.Acceptable p.isClient p.messageSizeMax p.progress ∧
      ∃ q, step p f.encode = .next q [] [] ∧ q.status = .connected) ∨
    (f.Acceptable p.isClient p.messageSizeMax p.progress ∧ f.opcode.val ≠ 8 ∧
      ∃ q, step p f.encode = .halt .error q [.code .error]) := by
  obtain ⟨hlegal, hfin, hge, hlt, hopen⟩ | ⟨hacceptable, hfin, hzero, o, ho, hge⟩ := h
  · refine .inl ⟨fun hacceptable => ?_, ?_⟩
    · have hopcode := hacceptable.opcode
      omega
    · rw [← List.append_nil f.encode]
      exact ⟨_, step_first hlegal hfin (by omega) hlt hopen hp.connected [], hp.connected⟩
  · have hreserved := processFrame_last_reserved _ []
      ((lastOpCode_copied p f.incoming).trans ho) hge (hp.opcode o ho).2
    rw [← hfin, ← hzero] at hreserved
    exact .inr ⟨hacceptable, by omega, _, step_failed hacceptable.legal hreserved⟩

/-- A close frame ends the connection. -/
theorem step_close (hp : Ready p) (h : f.Legal p.isClient p.messageSizeMax p.message.length)
    (hclose : f.opcode.val = 8) :
    ∃ q out, step p f.encode = .halt .peerClosed q out ∧ q.status = .closed := by
  obtain ⟨sent, random, closeFrameSent, hfinish⟩ :=
    (sendCloseFrame_sends { p with controlMessage := f.payload } .closed).finish
  have hstep := step_control h (by omega) hp.control []
  rw [List.append_nil, if_pos hclose, ofHandler, ofCall, hfinish] at hstep
  exact ⟨_, _, hstep, rfl⟩

/-! ## Sequences of frames -/

/-- No close frame is among them. -/
def Quiet (fs : List Frame) : Prop := ∀ f ∈ fs, f.opcode.val ≠ 8

variable {isClient : Bool} {limit : Nat} {s : Progress} {fs fs₁ fs₂ : List Frame}

theorem wire_append : wire (fs₁ ++ fs₂) = wire fs₁ ++ wire fs₂ := by
  rw [wire, List.map_append, List.flatten_append]
  rfl

theorem wire_cons : wire (f :: fs) = f.encode ++ wire fs := rfl

theorem Quiet.of_cons (h : Quiet (f :: fs)) : f.opcode.val ≠ 8 ∧ Quiet fs :=
  List.forall_mem_cons.mp h

theorem NoneMisjudged.of_append (h : NoneMisjudged isClient limit s (fs₁ ++ fs₂)) :
    NoneMisjudged isClient limit s fs₁ ∧
      (AllAcceptable isClient limit s fs₁ → Quiet fs₁ →
        NoneMisjudged isClient limit (fs₁.foldl Frame.after s) fs₂) := by
  induction fs₁ generalizing s with
  | nil => exact ⟨trivial, fun _ _ => h⟩
  | cons f fs₁ ih =>
    refine ⟨⟨h.1, fun ha hc => (ih (h.2 ha hc)).1⟩, fun ha hq => ?_⟩
    exact (ih (h.2 ha.1 hq.of_cons.1)).2 ha.2 hq.of_cons.2

theorem allAcceptable_append : AllAcceptable isClient limit s (fs₁ ++ fs₂) ↔
    AllAcceptable isClient limit s fs₁ ∧
      AllAcceptable isClient limit (fs₁.foldl Frame.after s) fs₂ := by
  induction fs₁ generalizing s with
  | nil => exact ⟨fun h => ⟨trivial, h⟩, fun h => h.2⟩
  | cons f fs₁ ih =>
    show _ ∧ AllAcceptable isClient limit (f.after s) (fs₁ ++ fs₂) ↔ (_ ∧ _) ∧ _
    rw [ih, and_assoc]
    rfl

/-- The first close frame. -/
theorem exists_close (h : ¬ Quiet fs) :
    ∃ fs₁ f fs₂, fs = fs₁ ++ f :: fs₂ ∧ Quiet fs₁ ∧ f.opcode.val = 8 := by
  induction fs with
  | nil => exact absurd nofun h
  | cons f fs ih =>
    by_cases hf : f.opcode.val = 8
    · exact ⟨[], f, fs, rfl, nofun, hf⟩
    · obtain ⟨fs₁, g, fs₂, rfl, hquiet, hg⟩ :=
        ih fun hquiet => h (List.forall_mem_cons.mpr ⟨hf, hquiet⟩)
      exact ⟨f :: fs₁, g, fs₂, rfl, List.forall_mem_cons.mpr ⟨hf, hquiet⟩, hg⟩

/-- The first frame that is misjudged. -/
theorem exists_misjudged (h : ¬ NoneMisjudged isClient limit s fs) :
    ∃ fs₁ f fs₂, fs = fs₁ ++ f :: fs₂ ∧ AllAcceptable isClient limit s fs₁ ∧ Quiet fs₁ ∧
      NoneMisjudged isClient limit s fs₁ ∧
      f.Misjudged isClient limit (fs₁.foldl Frame.after s) := by
  induction fs generalizing s with
  | nil => exact absurd trivial h
  | cons f fs ih =>
    by_cases hf : f.Misjudged isClient limit s
    · exact ⟨[], f, fs, rfl, trivial, nofun, trivial, hf⟩
    · have hrest : ¬ (f.Acceptable isClient limit s → f.opcode.val ≠ 8 →
          NoneMisjudged isClient limit (f.after s) fs) := fun hn => h ⟨hf, hn⟩
      simp only [Classical.not_imp] at hrest
      obtain ⟨ha, hclose, hn⟩ := hrest
      obtain ⟨fs₁, g, fs₂, rfl, hall, hquiet, hnone, hg⟩ := ih hn
      exact ⟨f :: fs₁, g, fs₂, rfl, ⟨ha, hall⟩, List.forall_mem_cons.mpr ⟨hclose, hquiet⟩,
        ⟨hf, fun _ _ => hnone⟩, hg⟩

/-- Acceptable frames, none of them a close frame, are taken one after another. -/
theorem steps_acceptable (hp : Ready p)
    (h : AllAcceptable p.isClient p.messageSizeMax p.progress fs) (hquiet : Quiet fs)
    (hjudged : NoneMisjudged p.isClient p.messageSizeMax p.progress fs) :
    ∃ q out, Steps step p (wire fs) q [] out ∧ Ready q ∧
      q.progress = fs.foldl Frame.after p.progress ∧ q.isClient = p.isClient ∧
      q.messageSizeMax = p.messageSizeMax ∧ Heard.code .error ∉ out := by
  induction fs generalizing p with
  | nil => exact ⟨p, [], .refl, hp, rfl, rfl, rfl, nofun⟩
  | cons f fs ih =>
    obtain ⟨hclose, hquiet'⟩ := hquiet.of_cons
    have hstep : ∃ q out, step p f.encode = .next q [] out ∧ Took p f q ∧
        Heard.code .error ∉ out := by
      by_cases hdata : f.opcode.val < 8
      · exact step_acceptable_data hp h.1 hjudged.1 hdata
      · exact step_acceptable_control hp h.1 (by omega) hclose
    obtain ⟨q₁, out₁, hnext, htook, herror₁⟩ := hstep
    have hrest := h.2
    have hnone := hjudged.2 h.1 hclose
    rw [← htook.progress, ← htook.isClient, ← htook.messageSizeMax] at hrest hnone
    obtain ⟨q, out, hsteps, hq, hprogress, hclient, hmax, herror⟩ :=
      ih htook.ready hrest hquiet' hnone
    refine ⟨q, out₁ ++ out, ?_, hq, ?_, hclient.trans htook.isClient,
      hmax.trans htook.messageSizeMax, ?_⟩
    · exact .next (step_stable.next trivial hnext) hsteps
    · rw [hprogress, htook.progress]
      rfl
    · rw [List.mem_append]
      exact not_or.mpr ⟨herror₁, herror⟩

/-- An object that reads frames by the rules, from now on: while only parts of
acceptable frames have come, none of them a close frame, there is no error; when a
frame that is not acceptable is complete, there has been one, or the connection is
closed and the next call returns one. -/
structure Obeys (p : WebSocketProtocol) (fs : List Frame) : Prop where
  silent : ∀ (date : Bytes) (pieces : List Bytes) (fs₁ fs₂ : List Frame), fs = fs₁ ++ fs₂ →
    AllAcceptable p.isClient p.messageSizeMax p.progress fs₁ → Quiet fs₁ →
    pieces.flatten <+: wire fs₁ →
    ∃ heard q rest, feed date p [] pieces = some (heard, q, rest) ∧ Heard.code .error ∉ heard
  rejects : ∀ (date : Bytes) (pieces : List Bytes) (fs₁ : List Frame) (f : Frame)
    (fs₂ : List Frame), fs = fs₁ ++ f :: fs₂ →
    AllAcceptable p.isClient p.messageSizeMax p.progress fs₁ →
    ¬ f.Acceptable p.isClient p.messageSizeMax (fs₁.foldl Frame.after p.progress) →
    wire (fs₁ ++ [f]) <+: pieces.flatten →
    ∃ heard q rest, feed date p [] pieces = some (heard, q, rest) ∧
      (Heard.code .error ∈ heard ∨
        ∀ date buffer, q.recvMessage date buffer = some (.returned (.code .error) q, buffer))

variable {q q' : WebSocketProtocol} {out out' : List Heard} {pieces : List Bytes} {date : Bytes}

/-- A connection that ends with a frame, for every way of cutting the stream. -/
theorem feed_halted (hp : p.status = .connected) {e : Ended}
    (hsteps : Steps step p (wire fs) q [] out) (hstep : step q f.encode = .halt e q' out')
    (hcover : wire (fs ++ [f]) <+: pieces.flatten) :
    feed date p [] pieces = result (out ++ out') (.halted e q') := by
  have hwire : wire (fs ++ [f]) = wire fs ++ f.encode := by
    rw [wire_append, wire_cons]
    exact congrArg _ (List.append_nil _)
  have hrun : Runs step p (wire fs ++ f.encode) (out ++ out') (.halted e q') :=
    (hsteps.append step_stable trivial f.encode).runs (.halt hstep)
  obtain ⟨x, hx⟩ := hcover
  obtain ⟨heard, r, hruns, hresult⟩ := feed_runs date hp pieces
  rw [← hx, hwire] at hruns
  obtain ⟨rfl, rfl⟩ := hruns.unique (hrun.append_halted step_stable trivial x)
  exact hresult

/-- A connection that waits behind a frame. -/
theorem feed_waiting (hp : p.status = .connected) (hsteps : Steps step p pieces.flatten q [] out) :
    feed date p [] pieces = some (out, q, some []) := by
  have hrun := hsteps.runs (.wait (step_nil q))
  rw [List.append_nil] at hrun
  obtain ⟨heard, r, hruns, hresult⟩ := feed_runs date hp pieces
  obtain ⟨rfl, rfl⟩ := hruns.unique hrun
  exact hresult

theorem obeys_silent (hp : Ready p) (hsteps : Steps step p (wire fs) q [] out)
    (herror : Heard.code .error ∉ out) (hpart : pieces.flatten <+: wire fs) :
    ∃ heard q rest, feed date p [] pieces = some (heard, q, rest) ∧
      Heard.code .error ∉ heard := by
  have hall := hsteps.runs (.wait (step_nil q))
  rw [List.append_nil] at hall
  obtain ⟨x, hx⟩ := hpart
  rw [← hx] at hall
  obtain ⟨heard, r, hruns, hresult⟩ := feed_runs date hp.connected pieces
  cases r with
  | halted e q' => cases (hall.unique (hruns.append_halted step_stable trivial x)).2
  | waiting q' rest =>
    exact ⟨heard, q', some rest, hresult,
      fun hmem => herror ((hruns.isPrefix step_stable trivial hall).subset hmem)⟩

/-- The reader obeys the rules on exactly the sequences in which no frame is
misjudged. -/
theorem obeys_iff (hp : Ready p) (fs : List Frame) :
    Obeys p fs ↔ NoneMisjudged p.isClient p.messageSizeMax p.progress fs := by
  constructor
  · intro hobeys
    by_contra hnone
    obtain ⟨fs₁, f, fs₂, rfl, hall, hquiet, hbefore, hf⟩ := exists_misjudged hnone
    obtain ⟨q, out, hsteps, hq, hprogress, hclient, hmax, herror⟩ :=
      steps_acceptable hp hall hquiet hbefore
    have hwire : wire (fs₁ ++ [f]) = wire fs₁ ++ f.encode := by
      rw [wire_append, wire_cons]
      exact congrArg _ (List.append_nil _)
    have hflatten : [wire (fs₁ ++ [f])].flatten = wire (fs₁ ++ [f]) := List.append_nil _
    have hcase := step_misjudged hq (by rwa [hprogress, hclient, hmax])
    rw [hprogress, hclient, hmax] at hcase
    obtain ⟨hbad, q', hstep, hconnected⟩ | ⟨hgood, hclose, q', hstep⟩ := hcase
    · -- the bad frame is taken, and the object waits for more
      obtain ⟨heard, q₁, rest, hfeed, hrejected⟩ :=
        hobeys.rejects [] [wire (fs₁ ++ [f])] fs₁ f fs₂ rfl hall hbad (by rw [hflatten])
      have hsteps' : Steps step p [wire (fs₁ ++ [f])].flatten q' [] (out ++ []) := by
        rw [hflatten, hwire]
        exact (hsteps.append step_stable trivial f.encode).trans (.one hstep)
      rw [feed_waiting hp.connected hsteps', List.append_nil] at hfeed
      cases hfeed
      obtain hmem | hcalls := hrejected
      · exact herror hmem
      · have hwaits : q'.recvMessage [] [] =
            some (.returned (.code .waitingMoreData) q', []) := by
          unfold recvMessage recvLoop handle
          rw [hconnected]
          rfl
        cases hwaits.symm.trans (hcalls [] [])
    · -- the last fragment of a message is refused for its first one
      obtain ⟨heard, q₁, rest, hfeed, hsilent⟩ :=
        hobeys.silent [] [wire (fs₁ ++ [f])] (fs₁ ++ [f]) fs₂ (by simp)
          (allAcceptable_append.mpr ⟨hall, hgood, trivial⟩) (by
            intro g hg
            obtain hg | hg := List.mem_append.mp hg
            · exact hquiet g hg
            · rw [List.mem_singleton.mp hg]
              exact hclose) (by rw [hflatten])
      rw [feed_halted hp.connected hsteps hstep (by rw [hflatten])] at hfeed
      cases hfeed
      exact hsilent (List.mem_append_right _ (List.mem_singleton.mpr rfl))
  · intro hnone
    constructor
    · rintro date pieces fs₁ fs₂ rfl hall hquiet hpart
      obtain ⟨q, out, hsteps, -, -, -, -, herror⟩ :=
        steps_acceptable hp hall hquiet hnone.of_append.1
      exact obeys_silent hp hsteps herror hpart
    · rintro date pieces fs₁ f fs₂ rfl hall hbad hcover
      by_cases hquiet : Quiet fs₁
      · obtain ⟨q, out, hsteps, hq, hprogress, hclient, hmax, -⟩ :=
          steps_acceptable hp hall hquiet hnone.of_append.1
        have hjudged := (hnone.of_append.2 hall hquiet).1
        rw [← hprogress, ← hclient, ← hmax] at hbad hjudged
        obtain ⟨q', hstep⟩ := step_unacceptable hbad hjudged
        exact ⟨_, _, _, feed_halted hp.connected hsteps hstep hcover,
          .inl (List.mem_append_right _ (List.mem_singleton.mpr rfl))⟩
      · obtain ⟨g₁, g, g₂, rfl, hquiet', hg⟩ := exists_close hquiet
        rw [List.append_assoc] at hnone
        obtain ⟨hall₁, hall₂⟩ := allAcceptable_append.mp hall
        obtain ⟨q, out, hsteps, hq, hprogress, hclient, hmax, -⟩ :=
          steps_acceptable hp hall₁ hquiet' hnone.of_append.1
        have hlegal := hall₂.1.legal
        rw [← hprogress, ← hclient, ← hmax] at hlegal
        obtain ⟨q', out', hstep, hclosed⟩ := step_close hq hlegal hg
        have hcover' : wire (g₁ ++ [g]) <+: pieces.flatten := by
          refine List.IsPrefix.trans ⟨wire (g₂ ++ [f]), ?_⟩ hcover
          rw [← wire_append]
          simp
        exact ⟨_, _, _, feed_halted hp.connected hsteps hstep hcover',
          .inr fun _ _ => recvMessage_idle (.inr (.inr (.inl hclosed)))⟩

/-- A server is sent a message in two fragments, with a ping frame between them, and then a
fragment that continues nothing. -/
theorem obeys_iff_fragments :
    let p : WebSocketProtocol := { construct true with status := .connected }
    let fs : List Frame :=
      [⟨false, 0, 1, .short, some [1, 2, 3, 4], [0x68], by decide, by decide⟩,
        ⟨true, 0, 9, .short, some [0, 0, 0, 0], [], by decide, by decide⟩,
        ⟨true, 0, 0, .short, some [4, 3, 2, 1], [0x69], by decide, by decide⟩,
        ⟨true, 0, 0, .short, some [4, 3, 2, 1], [0x69], by decide, by decide⟩]
    NoneMisjudged p.isClient p.messageSizeMax p.progress fs ∧ Obeys p fs := by
  intro p fs
  have hfew : ∀ {f : Frame} {s : Progress}, f.opcode.val < 3 ∨ 8 ≤ f.opcode.val →
      (∀ o ∈ s.opened, o < 3) → ¬ f.Misjudged p.isClient p.messageSizeMax s := by
    rintro f s hopcode hopened (⟨-, -, hge, hlt, -⟩ | ⟨-, -, -, o, ho, hge⟩)
    · omega
    · exact absurd (hopened o ho) (by omega)
  have hnone : NoneMisjudged p.isClient p.messageSizeMax p.progress fs := by
    refine ⟨hfew ?_ ?_, fun _ _ => ⟨hfew ?_ ?_, fun _ _ => ⟨hfew ?_ ?_, fun _ _ =>
      ⟨hfew ?_ ?_, fun _ _ => trivial⟩⟩⟩⟩ <;> decide
  exact ⟨hnone, (obeys_iff ⟨rfl, rfl, by simp [p, construct]⟩ fs).mpr hnone⟩

/-- A first fragment of opcode 3 goes unnoticed. -/
theorem not_obeys :
    ¬ Obeys { construct true with status := .connected }
        [⟨false, 0, 3, .short, some [0, 0, 0, 0], [], by decide, by decide⟩] := by
  intro h
  obtain ⟨heard, q, rest, hfeed, hrejected⟩ :=
    h.rejects [] [[0x03, 0x80, 0, 0, 0, 0]] [] _ [] rfl trivial
      (fun ha => by have := ha.opcode; revert this; decide) (by decide)
  have hwaits : feed [] { construct true with status := .connected } []
      [[0x03, 0x80, 0, 0, 0, 0]] =
      some ([], { construct true with status := .connected, lastOpCode := some 3 }, some []) := rfl
  rw [hwaits] at hfeed
  cases hfeed
  obtain hmem | hcalls := hrejected
  · cases hmem
  · cases hcalls [] []

end WebSocketProtocol

end Brickred
