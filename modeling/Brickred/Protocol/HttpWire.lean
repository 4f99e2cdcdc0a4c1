import Brickred.Protocol.HttpCuts
import Brickred.Protocol.HttpDelivery

/-!
# The bytes of a message

`ReadAs` says which message some bytes are, part by part, without the state of a reader.
What `HttpProtocol` delivers is the bytes that it has taken, read so; and bytes that are
read so it delivers as that message, unless a chunked body is over the limit as it comes
in.
-/

namespace Brickred

open Incremental
open StringUtil (find find_append find_eq_some find_le find_of_append find_spec split)

namespace HttpProtocol

/-- The bytes of one message. The body is raw: it has the heads of its chunks. -/
structure Parts where
  startLine : Bytes
  header : Bytes
  body : Bytes
  trailer : Bytes

def Parts.bytes (w : Parts) : Bytes := w.startLine ++ w.header ++ w.body ++ w.trailer

def Parts.empty : Parts := ⟨[], [], [], []⟩

/-- The sizes that are allowed. -/
structure Limits where
  startLine : Nat
  header : Nat
  body : Nat

def limits (p : HttpProtocol) : Limits := ⟨p.startLineMaxSize, p.headerMaxSize, p.bodyMaxSize⟩

/-- A start line with its line end, and the message that it begins. -/
inductive StartLineOf (max : Nat) : Bytes → HttpMessage → Prop where
  | mk {text m} (hfind : find (text ++ crlf) crlf = some text.length)
      (hparse : parseStartLine (split text (bytes " ") 3) = some m)
      (hlength : (text ++ crlf).length ≤ max) : StartLineOf max (text ++ crlf) m

/-- Header lines with the empty line behind them, which set headers of the message. -/
inductive BlockOf (max : Nat) (m : HttpMessage) : Bytes → HttpMessage → Prop where
  | mk {text m'} (hline : (text ++ (crlf ++ crlf)).take 2 ≠ crlf)
      (hfind : find (text ++ (crlf ++ crlf)) (crlf ++ crlf) = some text.length)
      (hlines : (split text crlf (-1)).foldlM setHeaderLine m = some m')
      (hlength : (text ++ (crlf ++ crlf)).length ≤ max) : BlockOf max m (text ++ (crlf ++ crlf)) m'

/-- A trailer may have no lines. -/
inductive TrailerOf (max : Nat) (m : HttpMessage) : Bytes → HttpMessage → Prop where
  | none : TrailerOf max m crlf m
  | block {trailer m'} (h : BlockOf max m trailer m') : TrailerOf max m trailer m'

/-- The line before a chunk, and the size in it. -/
structure HeadOf (head : Bytes) (size : Nat) : Prop where
  find_eq : find (head ++ crlf) crlf = some head.length
  size_eq : sscanfHex head = some size

/-- Chunks, and the bytes in them. -/
inductive ChunksOf (max : Nat) : Bytes → Bytes → Prop where
  | nil : ChunksOf max [] []
  | snoc {raw body head chunk} (h : ChunksOf max raw body) (hhead : HeadOf head chunk.length)
      (hpos : 0 < chunk.length) (hle : chunk.length ≤ max) :
      ChunksOf max (raw ++ (head ++ crlf ++ chunk ++ crlf)) (body ++ chunk)

/-- The message that the parts are. A message without header lines has no body. -/
inductive ReadAs (lim : Limits) : Parts → HttpMessage → Prop where
  | bare {line m} (hline : StartLineOf lim.startLine line m) : ReadAs lim ⟨line, crlf, [], []⟩ m
  | sized {line block body m₀ m} (hline : StartLineOf lim.startLine line m₀)
      (hblock : BlockOf lim.header m₀ block m) (hhas : m.hasHeader (bytes "Content-Length") = true)
      (hvalue : atoi (m.getHeader (bytes "Content-Length")) = body.length)
      (hle : body.length ≤ lim.body) : ReadAs lim ⟨line, block, body, []⟩ (m.setBody body)
  | chunked {line block raw last body trailer m₀ m₁ m} (hline : StartLineOf lim.startLine line m₀)
      (hblock : BlockOf lim.header m₀ block m₁) (hchunked : isChunked m₁ = true)
      (hraw : ChunksOf lim.body raw body) (hlast : HeadOf last 0) (hle : body.length ≤ lim.body)
      (htrailer : TrailerOf lim.header (chunkedMessage m₁ body) trailer m) :
      ReadAs lim ⟨line, block, raw ++ (last ++ crlf), trailer⟩ m

/-- A start line and header lines, and the message whose body comes behind them. -/
inductive OpeningOf (lim : Limits) : Bytes → HttpMessage → Prop where
  | mk {line block m₀ m} (hline : StartLineOf lim.startLine line m₀)
      (hblock : BlockOf lim.header m₀ block m) : OpeningOf lim (line ++ block) m

/-- What the reader has taken of a message. -/
inductive Held (p : HttpProtocol) : Parts → Prop where
  | startLine (hstate : p.state = .readingStartLine) (hchunk : p.chunkBuffer = none) :
      Held p .empty
  | header {line m} (hstate : p.state = .readingHeader m) (hchunk : p.chunkBuffer = none)
      (hline : StartLineOf p.startLineMaxSize line m) : Held p ⟨line, [], [], []⟩
  | body {line block m₀ m} (hstate : p.state = .readingBody m)
      (hline : StartLineOf p.startLineMaxSize line m₀) (hblock : BlockOf p.headerMaxSize m₀ block m)
      (hsized : isChunked m = false) : Held p ⟨line, block, [], []⟩
  | chunks {line block raw m₀ m} (hstate : p.state = .readingBody m)
      (hline : StartLineOf p.startLineMaxSize line m₀) (hblock : BlockOf p.headerMaxSize m₀ block m)
      (hchunked : isChunked m = true) (hraw : ChunksOf p.bodyMaxSize raw p.chunks) :
      Held p ⟨line, block, raw, []⟩
  | trailer {line block raw last body m₀ m}
      (hstate : p.state = .readingTrailerHeader (chunkedMessage m body))
      (hline : StartLineOf p.startLineMaxSize line m₀) (hblock : BlockOf p.headerMaxSize m₀ block m)
      (hchunked : isChunked m = true) (hraw : ChunksOf p.bodyMaxSize raw body)
      (hlast : HeadOf last 0) (hle : body.length ≤ p.bodyMaxSize) :
      Held p ⟨line, block, raw ++ (last ++ crlf), []⟩

variable {lim : Limits} {p q : HttpProtocol} {m m₀ message : HttpMessage} {w : Parts}
  {buffer rest x line block body raw : Bytes} {max : Nat}

/-! ## What a handler takes -/

theorem readStartLine_done (h : p.readStartLine buffer = (.done, q, rest)) :
    ∃ line m, buffer = line ++ rest ∧ StartLineOf p.startLineMaxSize line m ∧
      q = { p with state := .readingHeader m } := by
  have hlimit := p.startLineMaxSize_ge
  have hread := handled_startLine p buffer
  rw [h] at hread
  cases hread with
  | @done n m hfind hmax hparse =>
    have hle := find_le hfind
    rw [length_crlf] at hle
    have hbuffer := find_spec hfind
    have hn : (buffer.take n).length = n := List.length_take_of_le (by omega)
    refine ⟨buffer.take n ++ crlf, m, hbuffer, .mk ?_ hparse ?_, rfl⟩
    · rw [hn]
      refine find_of_append (x := buffer.drop (n + crlf.length)) (by rwa [← hbuffer]) ?_
      rw [List.length_append, hn]
    · rw [List.length_append, hn, length_crlf]
      omega

theorem StartLineOf.read (h : StartLineOf p.startLineMaxSize line m) (x : Bytes) :
    p.readStartLine (line ++ x) = (.done, { p with state := .readingHeader m }, x) := by
  obtain ⟨hfind, hparse, hlength⟩ := h
  rename_i text
  have htake : ((text ++ crlf) ++ x).take text.length = text := by
    rw [List.append_assoc, List.take_left]
  have hdrop : ((text ++ crlf) ++ x).drop (text.length + 2) = x := by
    rw [List.drop_left' (by rw [List.length_append, length_crlf])]
  rw [List.length_append, length_crlf] at hlength
  rw [readStartLine_line (find_append hfind x) (by omega) (by rwa [htake]), hdrop]

/-- A block of header lines, or none. -/
theorem readHeader_done_cases {trailer : Bool}
    (h : p.readHeader trailer message buffer = (.done, q, rest)) :
    (buffer = crlf ++ rest ∧ q = { p with state := .finished message }) ∨
      ∃ block m, buffer = block ++ rest ∧ BlockOf p.headerMaxSize message block m ∧
        q = { p with state := if trailer then .finished m else .readingBody m } := by
  have hlimit := p.headerMaxSize_ge
  have h4 : (crlf ++ crlf).length = 4 := rfl
  have hread := handled_header p trailer message buffer
  rw [h] at hread
  cases hread with
  | bare hlen hend =>
    refine .inl ⟨?_, rfl⟩
    rw [← hend, List.take_append_drop]
  | @block n m hlen hend hfind hmax hlines =>
    have hle := find_le hfind
    rw [h4] at hle
    have hbuffer := find_spec hfind
    have hn : (buffer.take n).length = n := List.length_take_of_le (by omega)
    refine .inr ⟨buffer.take n ++ (crlf ++ crlf), m, hbuffer, .mk ?_ ?_ hlines ?_, rfl⟩
    · intro he
      refine hend ?_
      rw [hbuffer, List.take_append_of_le_length (by rw [List.length_append, h4]; omega), he]
    · rw [hn]
      refine find_of_append (x := buffer.drop (n + (crlf ++ crlf).length)) (by rwa [← hbuffer]) ?_
      simp only [List.length_append, hn]
      exact Nat.le_refl _
    · rw [List.length_append, hn, h4]
      omega

theorem BlockOf.read (h : BlockOf p.headerMaxSize message block m) (trailer : Bool) (x : Bytes) :
    p.readHeader trailer message (block ++ x) =
      (.done, { p with state := if trailer then .finished m else .readingBody m }, x) := by
  obtain ⟨hline, hfind, hlines, hlength⟩ := h
  rename_i text
  have h4 : (crlf ++ crlf).length = 4 := rfl
  have htake : ((text ++ (crlf ++ crlf)) ++ x).take text.length = text := by
    rw [List.append_assoc, List.take_left]
  have hdrop : ((text ++ (crlf ++ crlf)) ++ x).drop (text.length + 4) = x := by
    rw [List.drop_left' (by rw [List.length_append, h4])]
  have htwo : ((text ++ (crlf ++ crlf)) ++ x).take 2 = (text ++ (crlf ++ crlf)).take 2 :=
    List.take_append_of_le_length (by rw [List.length_append, h4]; omega)
  rw [List.length_append, h4] at hlength
  rw [readHeader_block trailer (by simp only [List.length_append, length_crlf]; omega)
    (by rwa [htwo]) (find_append hfind x) (by omega) (by rwa [htake]), hdrop]

theorem readHeader_none (trailer : Bool) (x : Bytes) :
    p.readHeader trailer message (crlf ++ x) = (.done, { p with state := .finished message }, x) := by
  rw [readHeader_bare trailer (by rw [List.length_append, length_crlf]; omega)
    (List.take_left' length_crlf), List.drop_left' length_crlf]

theorem StartLineOf.ne_nil (h : StartLineOf max line m) : line ≠ [] := by
  obtain ⟨-, -, -⟩ := h
  simp [crlf]

theorem StartLineOf.body_eq (h : StartLineOf max line m) : m.body = [] := by
  obtain ⟨-, hparse, -⟩ := h
  exact (parseStartLine_empty hparse).2

theorem BlockOf.length_le (h : BlockOf max message block m) : block.length ≤ max := by
  obtain ⟨-, -, -, hlength⟩ := h
  exact hlength

theorem BlockOf.body_eq (h : BlockOf max message block m) : m.body = message.body := by
  obtain ⟨-, -, hlines, -⟩ := h
  exact (foldlM_setHeaderLine hlines).2

theorem setBody_nil (h : m.body = []) : m.setBody [] = m := by
  cases m
  cases h
  rfl

/-- A body whose length is given. -/
theorem readBody_done (hsized : isChunked m = false) (hempty : m.body = [])
    (h : p.readBody m buffer = (.done, q, rest)) :
    m.hasHeader (bytes "Content-Length") = true ∧ ∃ body : Bytes, buffer = body ++ rest ∧
      atoi (m.getHeader (bytes "Content-Length")) = body.length ∧ body.length ≤ p.bodyMaxSize ∧
      q = { p with state := .finished (m.setBody body) } := by
  have hread := handled_body hsized p buffer
  rw [h] at hread
  cases hread with
  | @done n hhas hvalue hpos hmax hlen =>
    have hlength : (buffer.take n).length = n := List.length_take_of_le hlen
    exact ⟨hhas, _, (List.take_append_drop _ _).symm, hvalue.trans (by rw [hlength]),
      hlength.le.trans hmax, rfl⟩
  | empty hhas hvalue =>
    refine ⟨hhas, [], rfl, hvalue, Nat.zero_le _, ?_⟩
    rw [setBody_nil hempty]

theorem readBody_eq (hempty : m.body = []) (hhas : m.hasHeader (bytes "Content-Length") = true)
    (hvalue : atoi (m.getHeader (bytes "Content-Length")) = body.length)
    (hle : body.length ≤ p.bodyMaxSize) (x : Bytes) :
    p.readBody m (body ++ x) = (.done, { p with state := .finished (m.setBody body) }, x) := by
  cases body with
  | nil =>
    rw [List.nil_append, setBody_nil hempty]
    exact readBody_zero hhas hvalue x
  | cons c body =>
    rw [readBody_take hhas hvalue (Nat.succ_pos _) hle (by simp), List.take_left, List.drop_left]

/-! ## What the reader takes -/

/-- A step of the reader takes a part of a message, or the rest of one. -/
inductive Took (p : HttpProtocol) (w : Parts) (buffer : Bytes) (q : HttpProtocol) (rest : Bytes) :
    List HttpMessage → Prop where
  | part {w'} (hheld : Held q w') (hlimits : q.limits = p.limits)
      (hbytes : w'.bytes ++ rest = w.bytes ++ buffer) : Took p w buffer q rest []
  | message {w' m} (hread : ReadAs p.limits w' m) (hheld : Held q .empty)
      (hlimits : q.limits = p.limits) (hbytes : w'.bytes ++ rest = w.bytes ++ buffer) :
      Took p w buffer q rest [m]

theorem ofHandled_next {r : Handled × HttpProtocol × Bytes} {out : List HttpMessage}
    (h : ofHandled p r = .next q rest out) :
    ∃ s rest', r = (.done, s, rest') ∧ proceed s rest' = .next q rest out := by
  obtain ⟨handled, s, rest'⟩ := r
  cases handled with
  | more | failed => cases h
  | done => exact ⟨s, rest', rfl, h⟩

/-- Every step takes what it takes from the bytes at hand. -/
theorem Held.step {out : List HttpMessage} (h : Held p w)
    (hstep : guardedStep p buffer = .next q rest out) : Took p w buffer q rest out := by
  have hover : overLimit p buffer = false := by
    by_contra hover
    cases (guarded_over (by simpa using hover)).symm.trans hstep
  rw [guardedStep_eq hover] at hstep
  unfold HttpProtocol.step at hstep
  cases h with
  | startLine hstate hchunk =>
    rw [hstate] at hstep
    dsimp only at hstep
    obtain ⟨s, rest', hr, hstep⟩ := ofHandled_next hstep
    obtain ⟨line, m, rfl, hline, rfl⟩ := readStartLine_done hr
    cases hstep
    refine .part (.header rfl hchunk hline) rfl ?_
    simp [Parts.bytes, Parts.empty]
  | @header line m hstate hchunk hline =>
    rw [hstate] at hstep
    dsimp only at hstep
    obtain ⟨s, rest', hr, hstep⟩ := ofHandled_next hstep
    obtain ⟨rfl, rfl⟩ | ⟨block, m', rfl, hblock, rfl⟩ := readHeader_done_cases hr
    · cases hstep
      refine .message (.bare hline) (.startLine rfl rfl) rfl ?_
      simp [Parts.bytes]
    · change Action.next (opened { p with state := .readingBody m' }) _ _ = _ at hstep
      by_cases hm : isChunked m' = true
      · have hopen : opened { p with state := .readingBody m' } =
            { p with state := .readingBody m', chunkBuffer := some p.chunks } := if_pos hm
        rw [hopen] at hstep
        cases hstep
        have hraw : ChunksOf p.bodyMaxSize [] p.chunks := by
          rw [HttpProtocol.chunks, hchunk]
          exact .nil
        refine .part (.chunks rfl hline hblock hm hraw) rfl ?_
        simp [Parts.bytes]
      · have hopen : opened { p with state := .readingBody m' } =
            { p with state := .readingBody m' } := if_neg hm
        rw [hopen] at hstep
        cases hstep
        refine .part (.body rfl hline hblock (by simpa using hm)) rfl ?_
        simp [Parts.bytes]
  | @body line block m₀ m hstate hline hblock hsized =>
    rw [hstate] at hstep
    dsimp only at hstep
    rw [if_neg (by simp [hsized])] at hstep
    obtain ⟨s, rest', hr, hstep⟩ := ofHandled_next hstep
    obtain ⟨hhas, body, rfl, hvalue, hle, rfl⟩ :=
      readBody_done hsized (hblock.body_eq.trans hline.body_eq) hr
    cases hstep
    refine .message (.sized hline hblock hhas hvalue hle) (.startLine rfl rfl) rfl ?_
    simp [Parts.bytes]
  | @chunks line block raw m₀ m hstate hline hblock hchunked hraw =>
    rw [hstate] at hstep
    dsimp only at hstep
    rw [if_pos hchunked] at hstep
    have hle : p.chunks.length + buffer.length ≤ p.bodyMaxSize := by
      simpa [overLimit, hstate, hchunked] using hover
    cases hc : readChunk p.bodyMaxSize buffer with
    | more | failed =>
      rw [hc] at hstep
      cases hstep
    | data chunk rest' =>
      rw [hc] at hstep
      cases hstep
      obtain ⟨head, rfl, hfind, hsize, hpos, hmax⟩ := readChunk_data hc
      have hhead : HeadOf head chunk.length :=
        ⟨find_of_append (x := chunk ++ crlf ++ rest) (by simpa using hfind) (by simp), hsize⟩
      refine .part (.chunks hstate hline hblock hchunked (hraw.snoc hhead hpos hmax)) rfl ?_
      simp [Parts.bytes]
    | last rest' =>
      rw [hc] at hstep
      cases hstep
      obtain ⟨head, rfl, hfind, hsize⟩ := readChunk_last hc
      have hlast : HeadOf head 0 :=
        ⟨find_of_append (x := rest) hfind (by simp), hsize⟩
      have hbody : p.chunks.length ≤ p.bodyMaxSize := by omega
      refine .part (.trailer rfl hline hblock hchunked hraw hlast hbody) rfl ?_
      simp [Parts.bytes]
  | @trailer line block raw last body m₀ m hstate hline hblock hchunked hraw hlast hle =>
    rw [hstate] at hstep
    dsimp only at hstep
    obtain ⟨s, rest', hr, hstep⟩ := ofHandled_next hstep
    obtain ⟨rfl, rfl⟩ | ⟨trailer, m', rfl, htrailer, rfl⟩ := readHeader_done_cases hr
    · cases hstep
      refine .message (.chunked hline hblock hchunked hraw hlast hle .none) (.startLine rfl rfl)
        rfl ?_
      simp [Parts.bytes]
    · cases hstep
      refine .message (.chunked hline hblock hchunked hraw hlast hle (.block htrailer))
        (.startLine rfl rfl) rfl ?_
      simp [Parts.bytes]

/-- The bytes of messages, one after another. -/
def bytesOf (ws : List Parts) : Bytes := (ws.map Parts.bytes).flatten

/-- Steps of the reader take whole messages and a part of another. -/
theorem Held.steps {out : List HttpMessage} (h : Held p w)
    (hsteps : Steps guardedStep p buffer q rest out) :
    q.limits = p.limits ∧ ∃ ws w', List.Forall₂ (ReadAs p.limits) ws out ∧ Held q w' ∧
      bytesOf ws ++ w'.bytes ++ rest = w.bytes ++ buffer := by
  induction hsteps generalizing w with
  | refl => exact ⟨rfl, [], w, .nil, h, rfl⟩
  | next e _ ih =>
    cases h.step e with
    | part hheld hlimits hbytes =>
      obtain ⟨hlimits', ws, w', hread, hheld', hbytes'⟩ := ih hheld
      rw [hlimits] at hlimits' hread
      exact ⟨hlimits', ws, w', hread, hheld', hbytes'.trans hbytes⟩
    | @message w₁ m hread₁ hheld hlimits hbytes =>
      obtain ⟨hlimits', ws, w', hread, hheld', hbytes'⟩ := ih hheld
      rw [hlimits] at hlimits' hread
      refine ⟨hlimits', w₁ :: ws, w', .cons hread₁ hread, hheld', ?_⟩
      have hall : bytesOf (w₁ :: ws) = w₁.bytes ++ bytesOf ws := rfl
      rw [hall, List.append_assoc, List.append_assoc, ← List.append_assoc (bytesOf ws), hbytes']
      exact hbytes

/-- What is delivered is the first bytes of the stream, message by message. -/
theorem Held.feeds {ps : List Bytes} {out : List HttpMessage} {r : Outcome UInt8 HttpProtocol Failure}
    (h : Held p w) (hfeeds : Feeds guardedStep p buffer ps out r) :
    ∃ ws, List.Forall₂ (ReadAs p.limits) ws out ∧ bytesOf ws <+: w.bytes ++ buffer ++ ps.flatten := by
  induction hfeeds generalizing w with
  | nil => exact ⟨[], .nil, List.nil_prefix⟩
  | cons hrun _ ih =>
    obtain ⟨hlimits, ws, w', hread, hheld, hbytes⟩ := h.steps hrun.steps.1
    obtain ⟨ws', hread', hbegins⟩ := ih hheld
    rw [hlimits] at hread'
    refine ⟨ws ++ ws', List.rel_append hread hread', ?_⟩
    have hall : bytesOf (ws ++ ws') = bytesOf ws ++ bytesOf ws' := by
      rw [bytesOf, List.map_append, List.flatten_append]
      rfl
    rw [hall, List.flatten_cons, ← List.append_assoc, List.append_assoc w.bytes, ← hbytes,
      List.append_assoc, List.append_assoc, List.prefix_append_right_inj, ← List.append_assoc]
    exact hbegins
  | halt hrun =>
    obtain ⟨s₁, b₁, out₁, out₂, hsteps, hhalt, rfl⟩ := hrun.steps_halt
    obtain ⟨-, ws, w', hread, -, hbytes⟩ := h.steps hsteps
    have hnil : out₂ = [] := by
      by_cases hover : overLimit s₁ b₁ = true
      · cases (guarded_over hover).symm.trans hhalt
        rfl
      · rw [guardedStep_eq (by simpa using hover)] at hhalt
        exact (step_halt hhalt).2
    refine ⟨ws, by rwa [hnil, List.append_nil], ?_⟩
    rw [List.flatten_cons, ← List.append_assoc, List.append_assoc w.bytes, ← hbytes,
      List.append_assoc, List.append_assoc]
    exact List.prefix_append _ _

/-! ## What is read as a message -/

theorem step_header (hstate : p.state = .readingHeader m) (b : Bytes) :
    step p b = ofHandled p (p.readHeader false m b) := by
  simp [step, hstate]

theorem step_sized (hstate : p.state = .readingBody m) (hsized : isChunked m = false) (b : Bytes) :
    step p b = ofHandled p (p.readBody m b) := by
  simp [step, hstate, hsized]

theorem OpeningOf.body_eq (h : OpeningOf lim line m) : m.body = [] := by
  obtain ⟨hline, hblock⟩ := h
  exact hblock.body_eq.trans hline.body_eq

/-- An opening is read up to the body. -/
theorem OpeningOf.steps (h : OpeningOf p.limits line m) (x : Bytes) :
    Steps guardedStep p.reset (line ++ x) (opened { p.reset with state := .readingBody m }) x [] := by
  obtain ⟨hline, hblock⟩ := h
  rename_i line block m₀
  have h₁ : guardedStep p.reset (line ++ (block ++ x)) =
      .next { p.reset with state := .readingHeader m₀ } (block ++ x) [] := by
    show ofHandled _ (p.reset.readStartLine _) = _
    rw [StartLineOf.read (p := p.reset) hline]
    rfl
  have h₂ : guardedStep { p.reset with state := .readingHeader m₀ } (block ++ x) =
      .next (opened { p.reset with state := .readingBody m }) x [] := by
    show ofHandled _ (readHeader _ false m₀ _) = _
    rw [BlockOf.read (p := { p.reset with state := .readingHeader m₀ }) hblock]
    rfl
  rw [List.append_assoc]
  exact .next h₁ (.one h₂)

/-- Chunks are read one after another. -/
theorem ChunksOf.steps (hstate : p.state = .readingBody m) (hchunked : isChunked m = true)
    (h : ChunksOf p.bodyMaxSize raw body) (x : Bytes) (hopen : p.chunkBuffer = some []) :
    Steps step p (raw ++ x) { p with chunkBuffer := some body } x [] := by
  induction h generalizing x with
  | nil =>
    rw [← hopen]
    exact .refl
  | @snoc raw body head chunk _ hhead hpos hle ih =>
    have hchunk : head ++ crlf ++ chunk ++ crlf ++ x = head ++ crlf ++ (chunk ++ crlf ++ x) := by
      simp only [List.append_assoc]
    have hdata := @readChunk_eq_data p.bodyMaxSize _ _ x
      (by rw [hchunk]; exact find_append hhead.find_eq _) hhead.size_eq hpos hle
    have hone : step { p with chunkBuffer := some body } (head ++ crlf ++ chunk ++ crlf ++ x) =
        .next { p with chunkBuffer := some (body ++ chunk) } x [] := by
      rw [step_chunked (q := { p with chunkBuffer := some body }) hstate hchunked]
      exact congrArg (ofChunk _ m) hdata
    have hsteps := (ih (head ++ crlf ++ chunk ++ crlf ++ x)).trans (.one hone)
    rwa [← List.append_assoc] at hsteps

/-- A trailer ends the message. -/
theorem TrailerOf.step (h : TrailerOf q.headerMaxSize m₀ buffer m)
    (hstate : q.state = .readingTrailerHeader m₀) (x : Bytes) :
    step q (buffer ++ x) = .next q.reset x [m] := by
  rw [step_trailer hstate]
  cases h with
  | none =>
    rw [readHeader_none]
    rfl
  | block hblock =>
    rw [hblock.read]
    rfl

/-- The bytes of a message are read as this message. -/
theorem ReadAs.steps (h : ReadAs p.limits w m) (x : Bytes) :
    Steps step p.reset (w.bytes ++ x) p.reset x [m] := by
  have hstart : ∀ {line m : _} (y : Bytes), StartLineOf p.startLineMaxSize line m →
      step p.reset (line ++ y) = .next { p.reset with state := .readingHeader m } y [] := by
    intro line m y hline
    show ofHandled _ (p.reset.readStartLine _) = _
    rw [StartLineOf.read (p := p.reset) hline y]
    rfl
  cases h with
  | @bare line m hline =>
    have hnone : step { p.reset with state := .readingHeader m } (crlf ++ x) =
        .next p.reset x [m] := by
      rw [step_header rfl, readHeader_none]
      rfl
    have hbytes : Parts.bytes ⟨line, crlf, [], []⟩ ++ x = line ++ (crlf ++ x) := by
      simp [Parts.bytes]
    rw [hbytes]
    exact .next (hstart _ hline) (.one hnone)
  | @sized line block body m₀ m hline hblock hhas hvalue hle =>
    have hsized : isChunked m = false := by simp [isChunked, hhas]
    have hblock' : step { p.reset with state := .readingHeader m₀ } (block ++ (body ++ x)) =
        .next { p.reset with state := .readingBody m } (body ++ x) [] := by
      rw [step_header rfl, BlockOf.read (p := { p.reset with state := .readingHeader m₀ }) hblock]
      show Action.next (if isChunked m then _ else _) _ _ = _
      rw [if_neg (by simp [hsized])]
      rfl
    have hbody : step { p.reset with state := .readingBody m } (body ++ x) =
        .next p.reset x [m.setBody body] := by
      rw [step_sized rfl hsized, readBody_eq (p := { p.reset with state := .readingBody m })
        (hblock.body_eq.trans hline.body_eq) hhas hvalue hle]
      rfl
    have hbytes : Parts.bytes ⟨line, block, body, []⟩ ++ x = line ++ (block ++ (body ++ x)) := by
      simp [Parts.bytes]
    rw [hbytes]
    exact .next (hstart _ hline) (.next hblock' (.one hbody))
  | @chunked line block raw last body trailer m₀ m₁ _ hline hblock hchunked hraw hlast hle htrailer =>
    let q : HttpProtocol := { p.reset with state := .readingBody m₁, chunkBuffer := some [] }
    have hblock' : ∀ y, step { p.reset with state := .readingHeader m₀ } (block ++ y) =
        .next q y [] := by
      intro y
      rw [step_header rfl, BlockOf.read (p := { p.reset with state := .readingHeader m₀ }) hblock]
      show Action.next (if isChunked m₁ then _ else _) _ _ = _
      rw [if_pos hchunked]
      rfl
    have hchunks := hraw.steps (p := q) rfl hchunked (last ++ crlf ++ (trailer ++ x)) rfl
    have hend : step { q with chunkBuffer := some body } (last ++ crlf ++ (trailer ++ x)) =
        .next { q with chunkBuffer := some body,
                       state := .readingTrailerHeader (chunkedMessage m₁ body) } (trailer ++ x) [] := by
      rw [@step_chunked _ m₁ rfl hchunked,
        readChunk_eq_last _ _ (find_append hlast.find_eq _) hlast.size_eq]
      rfl
    have htrailer' := htrailer.step (q := { q with
      chunkBuffer := some body, state := .readingTrailerHeader (chunkedMessage m₁ body) }) rfl x
    have hbytes : Parts.bytes ⟨line, block, raw ++ (last ++ crlf), trailer⟩ ++ x =
        line ++ (block ++ (raw ++ (last ++ crlf ++ (trailer ++ x)))) := by
      simp [Parts.bytes]
    rw [hbytes]
    exact .next (hstart _ hline) (.next (hblock' _) (hchunks.trans (.next hend (.one htrailer'))))

/-! ## What is delivered -/

/-- The messages that are delivered are the first bytes of the stream. -/
theorem readAs_of_outcome {ps : List Bytes} :
    ∃ ws, List.Forall₂ (ReadAs p.limits) ws (outcome p.reset ps).1 ∧ bytesOf ws <+: ps.flatten := by
  have hheld : Held p.reset .empty := .startLine rfl rfl
  obtain ⟨r, hfeeds, -⟩ := @feed_feeds p.reset [] trivial ps
  exact hheld.feeds hfeeds

/-- A message with which the stream begins is delivered, or a limit on what is unread is
exceeded before. -/
theorem outcome_of_readAs {ps : List Bytes} (h : ReadAs p.limits w m)
    (hbegins : w.bytes <+: ps.flatten) :
    (∃ ms, (outcome p.reset ps).1 = m :: ms) ∨ outcome p.reset ps = ([], true) := by
  obtain ⟨x, hx⟩ := hbegins
  obtain ⟨out, r, hfeeds, hout⟩ := outcome_feeds p ps
  rw [hout]
  obtain ⟨s₁, rfl, hbegins⟩ | ⟨b', qs, out₂, -, rfl, -⟩ :=
    hfeeds.guarded_or step_stable trivial (h.steps x) hx.symm
  · obtain rfl | ⟨ms, rfl, -⟩ := List.prefix_cons_iff.mp hbegins
    · exact .inr rfl
    · exact .inl ⟨ms, rfl⟩
  · exact .inl ⟨out₂, rfl⟩

end HttpProtocol

end Brickred
