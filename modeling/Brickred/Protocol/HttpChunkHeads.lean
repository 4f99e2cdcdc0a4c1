import Brickred.Protocol.HttpAwait

/-!
# The line before a chunk

`readBody` takes what `sscanf` with `%x` makes of the line before a chunk for the size of the
chunk. It skips white space, takes a sign and a `0x`, stops at the first byte that is no digit,
and keeps 32 bits of the number. `chunkSizeOf` is the size that such a line says: its digits,
with nothing but blanks or an extension behind them.
-/

namespace Brickred

open Incremental
open StringUtil (find find_append isBlank)

namespace HttpProtocol

/-- The size that a line says: hexadecimal digits, blanks, and an extension. -/
def chunkSizeOf (head : Bytes) : Option Nat :=
  let digits := head.takeWhile isxdigit
  let rest := (head.dropWhile isxdigit).dropWhile isBlank
  if digits ≠ [] ∧ (rest = [] ∨ rest.head? = some 59) ∧ digitsValue 16 digits < 2 ^ 32 then
    some (digitsValue 16 digits)
  else
    none

/-- The bytes before a chunk's line: an opening that says that there are chunks, and the
chunks before. -/
inductive Before (p : HttpProtocol) : Bytes → HttpMessage → Bytes → Prop where
  | mk {front raw m body} (hfront : OpeningOf p.limits front m) (hchunked : isChunked m = true)
      (hraw : ChunksOf p.bodyMaxSize raw body) : Before p (front ++ raw) m body

/-- The next so many bytes are a chunk of the message. No bytes are the end of its body. -/
inductive ChunkTaken (body rest : Bytes) (message : HttpMessage) : Nat → Prop where
  | last (hbody : message.body = body) : ChunkTaken body rest message 0
  | data {chunk rest'} (hrest : rest = chunk ++ crlf ++ rest') (hpos : 0 < chunk.length)
      (hbody : body ++ chunk <+: message.body) : ChunkTaken body rest message chunk.length

/-- What is asked of a chunk's line, whatever is before it and behind it and however the stream
comes: a message whose chunk has this line has a chunk of the size that the line says, and a line
that says no size is refused. -/
structure HeadObeyed (max : Nat) (head : Bytes) : Prop where
  taken : ∀ (p : HttpProtocol) before m body rest pieces q left message n,
    p.bodyMaxSize = max → Before p before m body →
    pieces.flatten = before ++ (head ++ crlf ++ rest) →
    p.reset.await [] pieces = (.messageReady, q, left) → q.state = .finished message →
    chunkSizeOf head = some n → ChunkTaken body rest message n
  refused : ∀ (p : HttpProtocol) before m body rest pieces,
    p.bodyMaxSize = max → Before p before m body →
    pieces.flatten = before ++ (head ++ crlf ++ rest) →
    chunkSizeOf head = none → (p.reset.await [] pieces).1 = .error

/-- The protocol between two chunks. -/
def readingChunks (p : HttpProtocol) (m : HttpMessage) (body : Bytes) : HttpProtocol :=
  { p with state := .readingBody m, chunkBuffer := some body }

variable {p q s : HttpProtocol} {m message : HttpMessage} {before body head rest left buffer : Bytes}
  {pieces : List Bytes} {n : Nat}

/-- A line that says a size is read so. -/
theorem sscanfHex_chunkSizeOf (h : chunkSizeOf head = some n) : sscanfHex head = some n := by
  unfold chunkSizeOf at h
  dsimp only at h
  split at h
  · rename_i hstrict
    obtain ⟨hne, hrest, hlt⟩ := hstrict
    cases h
    have hds : ∀ c ∈ head.takeWhile isxdigit, isxdigit c = true := fun c hc =>
      List.mem_takeWhile_imp hc
    have hbehind : ∀ c ∈ (head.dropWhile isxdigit).head?, isxdigit c = false ∧ c ≠ 120 ∧ c ≠ 88 := by
      intro c hc
      have hnot := List.head?_dropWhile_not isxdigit head
      generalize head.dropWhile isxdigit = t at hc hrest hnot
      cases t with
      | nil => cases hc
      | cons d t =>
        cases hc
        refine ⟨by simpa using hnot, ?_, ?_⟩ <;> rintro rfl <;>
          simp [isBlank] at hrest
    have hscan := sscanfHex_append hds hne hbehind
    rw [List.takeWhile_append_dropWhile] at hscan
    rw [hscan, Nat.min_eq_left (by omega), Nat.mod_eq_of_lt hlt]
  · cases h

/-! ## What is behind the line -/

theorem opened_chunked (hchunked : isChunked m = true) :
    opened { p.reset with state := .readingBody m } = readingChunks p m [] :=
  if_pos hchunked

theorem Before.steps (h : Before p before m body) (x : Bytes) :
    Steps step p.reset (before ++ x) (readingChunks p m body) x [] := by
  obtain ⟨hfront, hchunked, hraw⟩ := h
  rename_i front raw
  have hopen := (hfront.steps (raw ++ x)).unguarded
  rw [opened_chunked hchunked] at hopen
  rw [List.append_assoc]
  exact hopen.trans (hraw.steps (p := readingChunks p m []) rfl hchunked x rfl)

theorem Before.isChunked (h : Before p before m body) : isChunked m = true := by
  cases h
  assumption

/-- A trailer leaves the body as it is, and takes no more than the limit on headers. -/
theorem trailer_of_steps (hstate : s.state = .readingTrailerHeader m)
    (h : Steps step s buffer q left [message]) : message.body = m.body ∧
      (q.state = .readingStartLine → buffer.length ≤ s.headerMaxSize + left.length) := by
  have hmax := s.headerMaxSize_ge
  generalize hout : [message] = out at h
  cases h with
  | refl => cases hout
  | next e hsteps =>
    rw [step_trailer hstate] at e
    obtain ⟨s', rest', hr, e⟩ := ofHandled_next e
    obtain ⟨rfl, rfl⟩ | ⟨block, m', rfl, hblock, rfl⟩ := readHeader_done_cases hr
    · cases e
      obtain ⟨rfl, rfl⟩ := List.cons.inj hout
      refine ⟨rfl, fun hq => ?_⟩
      rw [rest_of_steps hsteps hq, List.length_append, length_crlf]
      omega
    · cases e
      obtain ⟨rfl, rfl⟩ := List.cons.inj hout
      refine ⟨hblock.body_eq, fun hq => ?_⟩
      have hle := hblock.length_le
      rw [rest_of_steps hsteps hq, List.length_append]
      omega

/-- The chunks so far are the beginning of the body. -/
theorem prefix_of_chunks (hstate : s.state = .readingBody m) (hchunked : isChunked m = true)
    (h : Steps step s buffer q left [message]) : s.chunks <+: message.body := by
  generalize hout : [message] = out at h
  induction h with
  | refl => cases hout
  | next e hsteps ih =>
    rw [step_chunked hstate hchunked] at e
    obtain ⟨rfl, ⟨chunk, -, rfl⟩ | ⟨-, rfl⟩⟩ := ofChunk_next e
    · exact (List.prefix_append _ chunk).trans (ih hstate hout)
    · rw [List.nil_append] at hout
      subst hout
      have hbody := (trailer_of_steps (m := chunkedMessage m _) rfl hsteps).1
      exact ⟨[], by rw [List.append_nil, hbody]; rfl⟩

/-- A line as it is read is the bytes up to the first line end. -/
theorem head_eq {head' x : Bytes} (hline : find (head ++ crlf) crlf = some head.length)
    (hbuffer : head ++ crlf ++ rest = head' ++ crlf ++ x)
    (hfind : find (head ++ crlf ++ rest) crlf = some head'.length) : head' = head ∧ rest = x := by
  rw [find_append hline] at hfind
  have hlen : head.length = head'.length := Option.some.inj hfind
  rw [List.append_assoc, List.append_assoc] at hbuffer
  obtain ⟨rfl, hrest⟩ := List.append_inj hbuffer hlen
  exact ⟨rfl, List.append_cancel_left hrest⟩

/-- A chunk behind this line. -/
theorem data_of_line {max : Nat} {chunk x : Bytes} (hline : find (head ++ crlf) crlf = some head.length)
    (hc : readChunk max (head ++ crlf ++ rest) = .data chunk x) :
    rest = chunk ++ crlf ++ x ∧ sscanfHex head = some chunk.length ∧ 0 < chunk.length := by
  obtain ⟨head', hbuffer, hfind, hsize, hpos, -⟩ := readChunk_data hc
  have hbuffer' : head ++ crlf ++ rest = head' ++ crlf ++ (chunk ++ crlf ++ x) := by
    simpa only [List.append_assoc] using hbuffer
  obtain ⟨rfl, hrest⟩ := head_eq hline hbuffer' hfind
  exact ⟨hrest, hsize, hpos⟩

/-- The end of the chunks by this line. -/
theorem last_of_line {max : Nat} {x : Bytes} (hline : find (head ++ crlf) crlf = some head.length)
    (hc : readChunk max (head ++ crlf ++ rest) = .last x) :
    rest = x ∧ sscanfHex head = some 0 := by
  obtain ⟨head', hbuffer, hfind, hsize⟩ := readChunk_last hc
  obtain ⟨rfl, hrest⟩ := head_eq hline hbuffer hfind
  exact ⟨hrest, hsize⟩

/-- A message that goes on has another chunk, or ends its chunks. -/
theorem round_of_steps (hchunked : isChunked m = true)
    (h : Steps step (readingChunks p m body) buffer q left [message]) :
    (∃ chunk rest, readChunk p.bodyMaxSize buffer = .data chunk rest ∧
      Steps step (readingChunks p m (body ++ chunk)) rest q left [message]) ∨
    ∃ rest, readChunk p.bodyMaxSize buffer = .last rest ∧
      Steps step ((readingChunks p m body).beginTrailer m) rest q left [message] := by
  generalize hout : [message] = out at h
  cases h with
  | refl => cases hout
  | next e hsteps =>
    rw [step_chunked (q := readingChunks p m body) rfl hchunked] at e
    obtain ⟨rfl, ⟨chunk, hc, rfl⟩ | ⟨hc, rfl⟩⟩ := ofChunk_next e
    · subst hout
      exact .inl ⟨chunk, _, hc, hsteps⟩
    · subst hout
      exact .inr ⟨_, hc, hsteps⟩

/-- A message that goes on behind the line has the chunk whose size is read from it. -/
theorem chunkTaken_of_steps (hchunked : isChunked m = true)
    (hline : find (head ++ crlf) crlf = some head.length) (hsize : sscanfHex head = some n)
    (h : Steps step (readingChunks p m body) (head ++ crlf ++ rest) q left [message]) :
    ChunkTaken body rest message n := by
  obtain ⟨chunk, x, hc, hsteps⟩ | ⟨x, hc, hsteps⟩ := round_of_steps hchunked h
  · obtain ⟨hrest, hsize', hpos⟩ := data_of_line hline hc
    rw [hsize] at hsize'
    cases hsize'
    exact .data hrest hpos (prefix_of_chunks (m := m) rfl hchunked hsteps)
  · obtain ⟨-, hsize'⟩ := last_of_line hline hc
    rw [hsize] at hsize'
    cases hsize'
    exact .last (trailer_of_steps (m := chunkedMessage m body) rfl hsteps).1

theorem chunkTaken_of_ready (hbefore : Before p before m body)
    (hline : find (head ++ crlf) crlf = some head.length) (hsize : sscanfHex head = some n)
    (hpieces : pieces.flatten = before ++ (head ++ crlf ++ rest))
    (hready : p.reset.await [] pieces = (.messageReady, q, left))
    (hstate : q.state = .finished message) : ChunkTaken body rest message n := by
  obtain ⟨message', hstate', -, hsteps⟩ := steps_of_await_ready hready
  cases hstate.symm.trans hstate'
  rw [hpieces] at hsteps
  obtain ⟨o, ho, hchunk⟩ | ⟨o, ho, -⟩ := (hbefore.steps _).comparable hsteps
  · rw [List.nil_append] at ho
    exact chunkTaken_of_steps hbefore.isChunked hline hsize (ho ▸ hchunk)
  · cases ho

/-! ## Lines that are refused -/

/-- A line without a size, with a size above the limit, or longer than the limit by itself. -/
def Refused (max : Nat) (head : Bytes) : Prop :=
  sscanfHex head = none ∨ (∃ n, sscanfHex head = some n ∧ max < n) ∨ max < (head ++ crlf).length

theorem readChunk_failed {max : Nat} (hline : find (head ++ crlf) crlf = some head.length)
    (h : sscanfHex head = none ∨ ∃ n, sscanfHex head = some n ∧ max < n) (x : Bytes) :
    readChunk max (head ++ crlf ++ x) = .failed := by
  have htake : (head ++ crlf ++ x).take head.length = head := by
    rw [List.append_assoc, List.take_left]
  unfold readChunk
  rw [find_append hline]
  dsimp only
  rw [htake]
  obtain hnone | ⟨n, hsize, hlarge⟩ := h
  · rw [hnone]
  · rw [hsize]
    dsimp only
    rw [if_pos hlarge]

theorem rejected_of_refused (hline : find (head ++ crlf) crlf = some head.length)
    (h : Refused p.bodyMaxSize head) (x : Bytes) :
    BodyRejected (readingChunks p m body) (head ++ crlf ++ x) := by
  by_cases hscan : sscanfHex head = none ∨ ∃ n, sscanfHex head = some n ∧ p.bodyMaxSize < n
  · exact .malformed (readChunk_failed hline hscan x)
  have hlong : p.bodyMaxSize < (head ++ crlf).length := by
    obtain hnone | hlarge | hlong := h
    · exact absurd (.inl hnone) hscan
    · exact absurd (.inr hlarge) hscan
    · exact hlong
  -- the line takes more than the limit allows
  have hmax : (readingChunks p m body).bodyMaxSize = p.bodyMaxSize := rfl
  cases hc : readChunk (readingChunks p m body).bodyMaxSize (head ++ crlf ++ x) with
  | more =>
    refine .unfinished hc ?_
    rw [List.length_append, hmax]
    omega
  | failed => exact .malformed hc
  | data chunk rest =>
    obtain ⟨rfl, -⟩ := data_of_line hline hc
    refine .dataTooLarge hc ?_
    simp only [List.length_append, hmax] at hlong ⊢
    omega
  | last rest =>
    obtain ⟨rfl, -⟩ := last_of_line hline hc
    refine .lastTooLarge hc ?_
    simp only [List.length_append, hmax] at hlong ⊢
    omega

theorem await_refused (hbefore : Before p before m body)
    (hline : find (head ++ crlf) crlf = some head.length) (h : Refused p.bodyMaxSize head)
    (hpieces : pieces.flatten = before ++ (head ++ crlf ++ rest)) :
    (p.reset.await [] pieces).1 = .error := by
  rw [await_error_iff]
  obtain ⟨out, r, hfeeds, hout⟩ := outcome_feeds p pieces
  rw [hout]
  obtain ⟨s₁, rfl, hnone⟩ | ⟨b', qs, out₂, hrest, rfl, hfeeds'⟩ :=
    hfeeds.guarded_or step_stable trivial (hbefore.steps _) hpieces
  · rw [List.prefix_nil.mp hnone]
    rfl
  · obtain ⟨rfl, hr⟩ := feeds_rejected (rejected_of_refused hline h rest) rfl hbefore.isChunked
      hrest hfeeds'
    rw [hr]
    rfl

/-! ## Lines that are not refused -/

/-- A request whose body is chunks, up to its body. -/
def chunkedRequest : HttpMessage :=
  HttpMessage.setHeader ⟨.request .post (bytes "/"), .http11, .empty, []⟩
    (bytes "Transfer-Encoding") (bytes "chunked")

def chunkedOpening : Bytes :=
  (bytes "POST / HTTP/1.1" ++ crlf) ++ (bytes "Transfer-Encoding: chunked" ++ (crlf ++ crlf))

theorem startLineMaxSize_set (max : Nat) :
    (construct.setBodyMaxSize max).startLineMaxSize = 8 * 1024 := by
  unfold setBodyMaxSize
  split <;> rfl

theorem headerMaxSize_set (max : Nat) : (construct.setBodyMaxSize max).headerMaxSize = 32 * 1024 := by
  unfold setBodyMaxSize
  split <;> rfl

theorem opening_chunkedRequest (max : Nat) :
    OpeningOf (construct.setBodyMaxSize max).limits chunkedOpening chunkedRequest := by
  refine .mk (.mk (by decide) rfl ?_) (.mk (by decide) (by decide) rfl ?_)
  · show 17 ≤ (construct.setBodyMaxSize max).startLineMaxSize
    rw [startLineMaxSize_set]
    decide
  · show 30 ≤ (construct.setBodyMaxSize max).headerMaxSize
    rw [headerMaxSize_set]
    decide

theorem bodyMaxSize_set {max : Nat} (h : 0 < max) : (construct.setBodyMaxSize max).bodyMaxSize = max := by
  unfold setBodyMaxSize
  rw [dif_neg (by omega)]

theorem before_chunkedRequest (max : Nat) :
    Before (construct.setBodyMaxSize max) chunkedOpening chunkedRequest [] := by
  rw [← List.append_nil chunkedOpening]
  exact .mk (opening_chunkedRequest max) (by decide) .nil

/-- A line that is not refused is taken, or the bytes behind it are waited for. -/
theorem runs_not_refused (hchunked : isChunked m = true) (hmax : (head ++ crlf).length ≤ p.bodyMaxSize)
    (hline : find (head ++ crlf) crlf = some head.length) (hsize : sscanfHex head = some n)
    (hle : n ≤ p.bodyMaxSize) :
    ∃ s b, Runs guardedStep (readingChunks p m []) (head ++ crlf) [] (.waiting s b) := by
  have hover : overLimit (readingChunks p m []) (head ++ crlf) = false := by
    have hnot := not_congr (overLimit_chunked (q := readingChunks p m []) rfl hchunked (head ++ crlf))
    rw [Bool.not_eq_true] at hnot
    refine hnot.mpr (Nat.not_lt.mpr ?_)
    show ([] : Bytes).length + _ ≤ p.bodyMaxSize
    rwa [List.length_nil, Nat.zero_add]
  have hg := (guardedStep_eq hover).trans
    (step_chunked (q := readingChunks p m []) rfl hchunked (head ++ crlf))
  by_cases hzero : n = 0
  · have hlast := @readChunk_eq_last p.bodyMaxSize head []
      (by rwa [List.append_nil]) (hzero ▸ hsize)
    rw [List.append_nil] at hlast
    change _ = ofChunk _ m (readChunk p.bodyMaxSize (head ++ crlf)) at hg
    rw [hlast] at hg
    exact ⟨_, _, .next hg (.wait rfl)⟩
  · have hmore : readChunk p.bodyMaxSize (head ++ crlf) = .more := by
      unfold readChunk
      rw [hline]
      dsimp only
      rw [List.take_left, hsize]
      dsimp only
      rw [if_neg (by omega), if_neg hzero, if_pos (by rw [List.length_append, length_crlf]; omega)]
    change _ = ofChunk _ m (readChunk p.bodyMaxSize (head ++ crlf)) at hg
    rw [hmore] at hg
    exact ⟨_, _, .wait hg⟩

theorem await_not_refused {max : Nat} (hline : find (head ++ crlf) crlf = some head.length)
    (h : ¬ Refused max head) : ((construct.setBodyMaxSize max).reset.await []
      [chunkedOpening ++ (head ++ crlf)]).1 ≠ .error := by
  unfold Refused at h
  push Not at h
  obtain ⟨hsome, hle, hshort⟩ := h
  obtain ⟨n, hsize⟩ := Option.ne_none_iff_exists'.mp hsome
  have hmax : (construct.setBodyMaxSize max).bodyMaxSize = max := by
    rw [List.length_append, length_crlf] at hshort
    exact bodyMaxSize_set (by omega)
  have hchunked : isChunked chunkedRequest = true := by decide
  have hopen := (opening_chunkedRequest max).steps (head ++ crlf)
  rw [opened_chunked hchunked] at hopen
  obtain ⟨s, b, hrun⟩ := runs_not_refused (p := construct.setBodyMaxSize max) hchunked
    (by rwa [hmax]) hline hsize (by rw [hmax]; exact hle n hsize)
  obtain ⟨out, r, hfeeds, hout⟩ :=
    outcome_feeds (construct.setBodyMaxSize max) [chunkedOpening ++ (head ++ crlf)]
  obtain ⟨rfl, rfl⟩ := hfeeds.guarded_runs step_stable trivial overLimit_mono (hopen.runs hrun)
    nofun (by simp)
  rw [Ne, await_error_iff, hout]
  exact nofun

/-! ## What is asked of lines -/

/-- What is asked of a line holds exactly if the line says a size, or is refused. -/
theorem headObeyed_iff {max : Nat} (hline : find (head ++ crlf) crlf = some head.length) :
    HeadObeyed max head ↔ (∃ n, chunkSizeOf head = some n) ∨ Refused max head := by
  constructor
  · intro h
    by_contra hnot
    rw [not_or] at hnot
    obtain ⟨hstrict, hrefused⟩ := hnot
    have hnone : chunkSizeOf head = none := by
      cases hc : chunkSizeOf head with
      | none => rfl
      | some n => exact absurd ⟨n, hc⟩ hstrict
    have hmax : (construct.setBodyMaxSize max).bodyMaxSize = max := by
      have hlong : (head ++ crlf).length ≤ max := by
        by_contra hlong
        exact hrefused (.inr (.inr (Nat.not_le.mp hlong)))
      rw [List.length_append, length_crlf] at hlong
      exact bodyMaxSize_set (by omega)
    refine await_not_refused hline hrefused ?_
    exact h.refused _ chunkedOpening chunkedRequest [] [] _ hmax (before_chunkedRequest max)
      (by simp) hnone
  · intro h
    constructor
    · intro p before m body rest pieces q left message n _ hbefore hpieces hready hstate hstrict
      exact chunkTaken_of_ready hbefore hline (sscanfHex_chunkSizeOf hstrict) hpieces hready hstate
    · intro p before m body rest pieces hmax hbefore hpieces hnone
      obtain ⟨n, hstrict⟩ | hrefused := h
      · rw [hnone] at hstrict
        cases hstrict
      · exact await_refused hbefore hline (hmax ▸ hrefused) hpieces

/-- A line with an extension. -/
theorem headObeyed_iff_extension : HeadObeyed 1024 (bytes "1F ;a=b") ↔
    (∃ n, chunkSizeOf (bytes "1F ;a=b") = some n) ∨ Refused 1024 (bytes "1F ;a=b") :=
  headObeyed_iff (by decide)

/-- A size with a `0x` is taken for the size behind it. -/
theorem not_headObeyed : ¬ ∀ (max : Nat) (head : Bytes),
    find (head ++ crlf) crlf = some head.length → HeadObeyed max head := by
  intro h
  have herror := (h (1024 * 1024) (bytes "0x3") (by decide)).refused
    (construct.setBodyMaxSize (1024 * 1024)) chunkedOpening chunkedRequest []
    (bytes "abc\r\n0\r\n\r\n")
    [chunkedOpening ++ bytes "0x3\r\nabc\r\n0\r\n\r\n"] (by decide)
    (before_chunkedRequest _) (by decide) (by decide)
  revert herror
  decide +kernel

end HttpProtocol

end Brickred
