import Brickred.Lib.Incremental
import Brickred.Protocol.HttpProtocol

/-!
# An `HttpProtocol` as a reader

`step` is one status handler, or one chunk of a chunked body. What it does depends
on nothing but the input that it consumes. `overLimit` is the check on the size of
a chunked body, which depends on all that is unread.
-/

namespace Brickred

open Incremental
open StringUtil (find find_append find_le find_of_append find_spec length_lt_of_find_append split)

namespace HttpProtocol

/-- Why `recvMessage` fails: what it has read, or how much there is to read. -/
inductive Failure where
  | malformed
  | bodyTooLarge
deriving DecidableEq, Repr

/-- The body is read as chunks. -/
def isChunked (message : HttpMessage) : Bool :=
  !message.hasHeader (bytes "Content-Length") &&
    message.headerContain (bytes "Transfer-Encoding") (bytes "chunked")

/-- The protocol with the chunk buffer that `readBody` will need. -/
def opened (p : HttpProtocol) : HttpProtocol :=
  match p.state with
  | .readingBody message => if isChunked message then p.openChunkBuffer else p
  | _ => p

/-- A reader in the state that a handler has left, with the message retrieved if it
is complete. -/
def proceed (p : HttpProtocol) (rest : Bytes) : Action UInt8 HttpProtocol HttpMessage Failure :=
  match p.state with
  | .finished message => .next p.reset rest [message]
  | _ => .next p.opened rest []

/-- What a handler's result is to a reader. -/
def ofHandled (p : HttpProtocol) :
    Handled × HttpProtocol × Bytes → Action UInt8 HttpProtocol HttpMessage Failure
  | (.more, _, _) => .wait
  | (.failed, _, _) => .halt .malformed p []
  | (.done, q, rest) => proceed q rest

/-- What a round of the loop over chunks is to a reader. -/
def ofChunk (p : HttpProtocol) (message : HttpMessage) :
    Chunk → Action UInt8 HttpProtocol HttpMessage Failure
  | .more => .wait
  | .failed => .halt .malformed p []
  | .data chunk rest => .next (p.appendChunk chunk) rest []
  | .last rest => .next (p.beginTrailer message) rest []

/-- One status handler, or one chunk. -/
def step (p : HttpProtocol) (buffer : Bytes) : Action UInt8 HttpProtocol HttpMessage Failure :=
  match p.state with
  | .readingStartLine => ofHandled p (p.readStartLine buffer)
  | .readingHeader message => ofHandled p (p.readHeader false message buffer)
  | .readingBody message =>
    if isChunked message then ofChunk p message (readChunk p.bodyMaxSize buffer)
    else ofHandled p (p.readBody message buffer)
  | .readingTrailerHeader message => ofHandled p (p.readHeader true message buffer)
  | .finished _ | .pendingError => .halt .malformed p []

/-- The check with which `readBody` begins to read chunks. -/
def overLimit (p : HttpProtocol) (buffer : Bytes) : Bool :=
  match p.state with
  | .readingBody message =>
    isChunked message && decide (p.chunks.length + buffer.length > p.bodyMaxSize)
  | _ => false

/-- The reader that `recvMessage` is. -/
abbrev guardedStep : HttpProtocol → Bytes → Action UInt8 HttpProtocol HttpMessage Failure :=
  guarded overLimit .bodyTooLarge step

theorem guardedStep_eq {p : HttpProtocol} {buffer : Bytes} (h : overLimit p buffer = false) :
    guardedStep p buffer = step p buffer :=
  guarded_eq h

variable {p q : HttpProtocol} {buffer rest x : Bytes} {message : HttpMessage}

/-! ## What comes of a call of a handler -/

/-- What comes of a start line. -/
inductive StartLineHandled (p : HttpProtocol) (buffer : Bytes) :
    Handled × HttpProtocol × Bytes → Prop
  | failed : StartLineHandled p buffer (.failed, p, buffer)
  | more : buffer.length ≤ p.startLineMaxSize → StartLineHandled p buffer (.more, p, buffer)
  | done {n : Nat} {m : HttpMessage} : find buffer crlf = some n → n ≤ p.startLineMaxSize - 2 →
      parseStartLine (split (buffer.take n) (bytes " ") 3) = some m →
      StartLineHandled p buffer
        (.done, { p with state := .readingHeader m }, buffer.drop (n + 2))

theorem handled_startLine (p : HttpProtocol) (buffer : Bytes) :
    StartLineHandled p buffer (p.readStartLine buffer) := by
  unfold readStartLine
  cases hfind : find buffer crlf with
  | none =>
    dsimp only
    split
    · exact .failed
    next hmax => exact .more (by omega)
  | some n =>
    dsimp only
    split
    · exact .failed
    next hmax =>
      split
      · exact .failed
      next m hparse => exact .done hfind (by omega) hparse

/-- A start line that is there. -/
theorem readStartLine_line {n : Nat} (hfind : find buffer crlf = some n)
    (hmax : n ≤ p.startLineMaxSize - 2)
    (hparse : parseStartLine (split (buffer.take n) (bytes " ") 3) = some message) :
    p.readStartLine buffer =
      (.done, { p with state := .readingHeader message }, buffer.drop (n + 2)) := by
  unfold readStartLine
  rw [hfind]
  dsimp only
  rw [if_neg (by omega), hparse]

/-- What comes of a header block. -/
inductive HeaderHandled (p : HttpProtocol) (trailer : Bool) (message : HttpMessage)
    (buffer : Bytes) : Handled × HttpProtocol × Bytes → Prop
  | failed : HeaderHandled p trailer message buffer (.failed, p, buffer)
  | more : buffer.length ≤ p.headerMaxSize →
      HeaderHandled p trailer message buffer (.more, p, buffer)
  | bare : 2 ≤ buffer.length → buffer.take 2 = crlf → HeaderHandled p trailer message buffer
      (.done, { p with state := .finished message }, buffer.drop 2)
  | block {n : Nat} {m : HttpMessage} : 2 ≤ buffer.length → buffer.take 2 ≠ crlf →
      find buffer (crlf ++ crlf) = some n → n ≤ p.headerMaxSize - 4 →
      (split (buffer.take n) crlf (-1)).foldlM setHeaderLine message = some m →
      HeaderHandled p trailer message buffer
        (.done, { p with state := if trailer then .finished m else .readingBody m },
          buffer.drop (n + 4))

theorem handled_header (p : HttpProtocol) (trailer : Bool) (message : HttpMessage)
    (buffer : Bytes) :
    HeaderHandled p trailer message buffer (p.readHeader trailer message buffer) := by
  have hlimit := p.headerMaxSize_ge
  unfold readHeader
  split
  next hlen => exact .more (by omega)
  next hlen =>
    split
    next hend => exact .bare (by omega) hend
    next hend =>
      cases hfind : find buffer (crlf ++ crlf) with
      | none =>
        dsimp only
        split
        · exact .failed
        next hmax => exact .more (by omega)
      | some n =>
        dsimp only
        split
        · exact .failed
        next hmax =>
          split
          · exact .failed
          next m hlines => exact .block (by omega) hend hfind (by omega) hlines

/-- A header block that is there. -/
theorem readHeader_block {n : Nat} {m : HttpMessage} (trailer : Bool) (hlen : 2 ≤ buffer.length)
    (hend : buffer.take 2 ≠ crlf) (hfind : find buffer (crlf ++ crlf) = some n)
    (hmax : n ≤ p.headerMaxSize - 4)
    (hlines : (split (buffer.take n) crlf (-1)).foldlM setHeaderLine message = some m) :
    p.readHeader trailer message buffer =
      (.done, { p with state := if trailer then .finished m else .readingBody m },
        buffer.drop (n + 4)) := by
  unfold readHeader
  rw [if_neg (by omega), if_neg hend, hfind]
  dsimp only
  rw [if_neg (by omega), hlines]

theorem readHeader_bare (trailer : Bool) (hlen : 2 ≤ buffer.length)
    (hend : buffer.take 2 = crlf) : p.readHeader trailer message buffer =
      (.done, { p with state := .finished message }, buffer.drop 2) := by
  unfold readHeader
  rw [if_neg (by omega), if_pos hend]

/-- What comes of a body that is not read as chunks. -/
inductive BodyHandled (p : HttpProtocol) (m : HttpMessage) (buffer : Bytes) :
    Handled × HttpProtocol × Bytes → Prop
  | failed : BodyHandled p m buffer (.failed, p, buffer)
  | more {n : Nat} : n ≤ p.bodyMaxSize → buffer.length < n →
      BodyHandled p m buffer (.more, p, buffer)
  | done {n : Nat} : m.hasHeader (bytes "Content-Length") = true →
      atoi (m.getHeader (bytes "Content-Length")) = n → 0 < n → n ≤ p.bodyMaxSize →
      n ≤ buffer.length → BodyHandled p m buffer
        (.done, { p with state := .finished (m.setBody (buffer.take n)) }, buffer.drop n)
  | empty : m.hasHeader (bytes "Content-Length") = true →
      atoi (m.getHeader (bytes "Content-Length")) = 0 →
      BodyHandled p m buffer (.done, { p with state := .finished m }, buffer)

theorem handled_body (hchunked : isChunked message = false) (p : HttpProtocol)
    (buffer : Bytes) : BodyHandled p message buffer (p.readBody message buffer) := by
  unfold readBody
  split
  next hhas =>
    dsimp only
    split
    next hpos =>
      have hlength := Int.toNat_of_nonneg hpos.le
      split
      · exact .failed
      next hmax =>
        split
        next hlen => exact .more (by omega) hlen
        next hlen => exact .done hhas hlength.symm (by omega) (by omega) (by omega)
    next =>
      split
      next hzero => exact .empty hhas hzero
      next => exact .failed
  next hhas =>
    have hnot : message.headerContain (bytes "Transfer-Encoding") (bytes "chunked") = false := by
      simpa [isChunked, hhas] using hchunked
    rw [hnot]
    exact .failed

/-- A body of which enough is there. -/
theorem readBody_take {n : Nat} (hhas : message.hasHeader (bytes "Content-Length") = true)
    (hvalue : atoi (message.getHeader (bytes "Content-Length")) = n) (hpos : 0 < n)
    (hmax : n ≤ p.bodyMaxSize) (hlen : n ≤ buffer.length) :
    p.readBody message buffer =
      (.done, { p with state := .finished (message.setBody (buffer.take n)) }, buffer.drop n) := by
  unfold readBody
  rw [if_pos hhas, hvalue]
  dsimp only
  rw [if_pos (by omega), Int.toNat_natCast, if_neg (by omega), if_neg (by omega)]

theorem readBody_zero (hhas : message.hasHeader (bytes "Content-Length") = true)
    (hvalue : atoi (message.getHeader (bytes "Content-Length")) = 0) (buffer : Bytes) :
    p.readBody message buffer = (.done, { p with state := .finished message }, buffer) := by
  unfold readBody
  rw [if_pos hhas, hvalue]
  rfl

/-! ## Steps do not depend on input that is not consumed -/

/-- A result with more input left. -/
def appendRest (x : Bytes) (r : Handled × HttpProtocol × Bytes) : Handled × HttpProtocol × Bytes :=
  (r.1, r.2.1, r.2.2 ++ x)

/-- A chunk with more input left. -/
def Chunk.append (x : Bytes) : Chunk → Chunk
  | .more => .more
  | .failed => .failed
  | .data chunk rest => .data chunk (rest ++ x)
  | .last rest => .last (rest ++ x)

theorem readStartLine_append (h : (p.readStartLine buffer).1 ≠ .more) (x : Bytes) :
    p.readStartLine (buffer ++ x) = appendRest x (p.readStartLine buffer) := by
  have hmax := p.startLineMaxSize_ge
  unfold readStartLine at h ⊢
  cases hfind : find buffer crlf with
  | none =>
    rw [hfind] at h
    have hlong : buffer.length > p.startLineMaxSize := by
      by_contra hshort
      exact h (by simp [hshort])
    cases hfind' : find (buffer ++ x) crlf with
    | none => simp [hlong, appendRest, Nat.lt_add_right]
    | some n =>
      -- the line end that has come lies behind the limit
      have hlt := length_lt_of_find_append hfind hfind'
      have hn : n > p.startLineMaxSize - 2 := by
        have : crlf.length = 2 := rfl
        omega
      simp [hlong, hn, appendRest]
  | some n =>
    have hle := find_le hfind
    have h2 : crlf.length = 2 := rfl
    rw [find_append hfind x]
    dsimp only
    rw [List.take_append_of_le_length (by omega), List.drop_append_of_le_length (by omega)]
    split
    · rfl
    · split <;> rfl

theorem readHeader_more {trailer : Bool} (h : (p.readHeader trailer message buffer).1 = .more) :
    (p.readHeader trailer message buffer).2 = (p, buffer) := by
  have hread := handled_header p trailer message buffer
  generalize p.readHeader trailer message buffer = r at h hread
  cases hread with
  | more => rfl
  | failed | bare | block => cases h

theorem readHeader_append {trailer : Bool} (h : (p.readHeader trailer message buffer).1 ≠ .more)
    (x : Bytes) : p.readHeader trailer message (buffer ++ x) =
      appendRest x (p.readHeader trailer message buffer) := by
  have hmax := p.headerMaxSize_ge
  unfold readHeader at h ⊢
  by_cases hlen : buffer.length < 2
  · simp [hlen] at h
  rw [if_neg hlen] at h ⊢
  rw [if_neg (by rw [List.length_append]; omega), List.take_append_of_le_length (by omega)]
  by_cases hend : buffer.take 2 = crlf
  · rw [if_pos hend, if_pos hend, List.drop_append_of_le_length (by omega)]
    rfl
  rw [if_neg hend] at h ⊢
  rw [if_neg hend]
  cases hfind : find buffer (crlf ++ crlf) with
  | none =>
    rw [hfind] at h
    have hlong : buffer.length > p.headerMaxSize := by
      by_contra hshort
      exact h (by simp [hshort])
    cases hfind' : find (buffer ++ x) (crlf ++ crlf) with
    | none => simp [hlong, appendRest, Nat.lt_add_right]
    | some n =>
      have hlt := length_lt_of_find_append hfind hfind'
      have hn : n > p.headerMaxSize - 4 := by
        have : (crlf ++ crlf).length = 4 := rfl
        omega
      simp [hlong, hn, appendRest]
  | some n =>
    have hle := find_le hfind
    have h4 : (crlf ++ crlf).length = 4 := rfl
    rw [find_append hfind x]
    dsimp only
    rw [List.take_append_of_le_length (by omega), List.drop_append_of_le_length (by omega)]
    split
    · rfl
    · split <;> rfl

/-- A body of a given length. -/
theorem readBody_append (hchunked : isChunked message = false)
    (h : (p.readBody message buffer).1 ≠ .more) (x : Bytes) :
    p.readBody message (buffer ++ x) = appendRest x (p.readBody message buffer) := by
  unfold readBody at h ⊢
  split
  · rename_i hhas
    rw [if_pos hhas] at h
    dsimp only at h ⊢
    split
    · rename_i hpos
      rw [if_pos hpos] at h
      split
      · rfl
      · rename_i hmax
        rw [if_neg hmax] at h
        by_cases hlen : buffer.length < (atoi (message.getHeader (bytes "Content-Length"))).toNat
        · simp [hlen] at h
        · rw [if_neg hlen, if_neg (by rw [List.length_append]; omega),
            List.take_append_of_le_length (by omega), List.drop_append_of_le_length (by omega)]
          rfl
    · split <;> rfl
  · rename_i hhas
    have hnot : message.headerContain (bytes "Transfer-Encoding") (bytes "chunked") = false := by
      simpa [isChunked, hhas] using hchunked
    simp [hnot, appendRest]

theorem readBody_more (hchunked : isChunked message = false)
    (h : (p.readBody message buffer).1 = .more) : (p.readBody message buffer).2 = (p, buffer) := by
  have hsized := handled_body hchunked p buffer
  generalize p.readBody message buffer = r at h hsized
  cases hsized with
  | more => rfl
  | failed | done | empty => cases h

theorem readChunk_append {max : Nat} (h : readChunk max buffer ≠ .more) (x : Bytes) :
    readChunk max (buffer ++ x) = (readChunk max buffer).append x := by
  unfold readChunk at h ⊢
  cases hfind : find buffer crlf with
  | none =>
    rw [hfind] at h
    exact absurd rfl h
  | some n =>
    have hle := find_le hfind
    have h2 : crlf.length = 2 := rfl
    rw [hfind] at h
    rw [find_append hfind x]
    dsimp only at h ⊢
    rw [List.take_append_of_le_length (by omega)]
    cases hsize : sscanfHex (buffer.take n) with
    | none => rfl
    | some chunkSize =>
      rw [hsize] at h
      dsimp only at h ⊢
      split
      · rfl
      · rename_i hmax
        rw [if_neg hmax] at h
        generalize htotal : (if chunkSize = 0 then n + 2 else n + 2 + chunkSize + 2) = total at h ⊢
        by_cases hlen : buffer.length < total
        · simp [hlen] at h
        · have hge : n + 2 + chunkSize ≤ total := by
            rw [← htotal]
            split <;> omega
          have hge' : chunkSize ≠ 0 → n + 2 + chunkSize + 2 ≤ total := by
            intro hne
            rw [← htotal, if_neg hne]
          rw [if_neg hlen, if_neg (by rw [List.length_append]; omega)]
          by_cases hzero : chunkSize = 0
          · rw [if_pos hzero, if_pos hzero, List.drop_append_of_le_length (by omega)]
            rfl
          · have := hge' hzero
            rw [if_neg hzero, if_neg hzero, List.drop_append_of_le_length (by omega),
              List.take_append_of_le_length (by rw [List.length_drop]; omega),
              List.drop_append_of_le_length (by omega), List.drop_append_of_le_length (by omega),
              List.take_append_of_le_length (by rw [List.length_drop]; omega)]
            split <;> rfl

theorem proceed_persists (q : HttpProtocol) (rest x : Bytes) :
    (proceed q rest).Persists x (proceed q (rest ++ x)) := by
  unfold proceed
  cases q.state <;> exact .next

theorem ofHandled_persists {r r' : Handled × HttpProtocol × Bytes}
    (h : r.1 ≠ .more → r' = appendRest x r) : (ofHandled p r).Persists x (ofHandled p r') := by
  obtain ⟨handled, q, rest⟩ := r
  cases handled with
  | more => exact .wait
  | failed =>
    rw [h nofun]
    exact .halt
  | done =>
    rw [h nofun]
    exact proceed_persists q rest x

theorem ofChunk_persists {max : Nat} :
    (ofChunk p message (readChunk max buffer)).Persists x
      (ofChunk p message (readChunk max (buffer ++ x))) := by
  have happend := @readChunk_append buffer max
  cases hc : readChunk max buffer with
  | more => exact .wait
  | failed =>
    rw [happend (by rw [hc]; nofun), hc]
    exact .halt
  | data chunk rest =>
    rw [happend (by rw [hc]; nofun), hc]
    exact .next
  | last rest =>
    rw [happend (by rw [hc]; nofun), hc]
    exact .next

/-- More input does not change what a step does. -/
theorem step_stable : Stable step fun _ => True := by
  refine .of_persists (fun p buffer x _ => ?_) fun _ _ => trivial
  unfold step
  cases p.state with
  | readingStartLine => exact ofHandled_persists fun h => readStartLine_append h x
  | readingHeader m => exact ofHandled_persists fun h => readHeader_append h x
  | readingTrailerHeader m => exact ofHandled_persists fun h => readHeader_append h x
  | finished m => exact .halt
  | pendingError => exact .halt
  | readingBody m =>
    dsimp only
    by_cases hm : isChunked m = true
    · rw [if_pos hm, if_pos hm]
      exact ofChunk_persists
    · rw [if_neg hm, if_neg hm]
      exact ofHandled_persists fun h => readBody_append (by simpa using hm) h x

/-- The check can only begin to fail as more input comes. -/
theorem overLimit_mono (p : HttpProtocol) (buffer x : Bytes) (h : overLimit p buffer = true) :
    overLimit p (buffer ++ x) = true := by
  unfold overLimit at h ⊢
  split at h
  · simp only [Bool.and_eq_true, decide_eq_true_eq, List.length_append] at h ⊢
    exact ⟨h.1, by omega⟩
  · cases h

/-! ## Steps depend on nothing but the input they consume -/

/-- A chunk: its size in hexadecimal, and its bytes. -/
theorem readChunk_data {max : Nat} {chunk : Bytes}
    (h : readChunk max buffer = .data chunk rest) :
    ∃ head, buffer = head ++ crlf ++ chunk ++ crlf ++ rest ∧
      find buffer crlf = some head.length ∧ sscanfHex head = some chunk.length ∧
      0 < chunk.length ∧ chunk.length ≤ max := by
  unfold readChunk at h
  cases hfind : find buffer crlf with
  | none => simp [hfind] at h
  | some n =>
    rw [hfind] at h
    dsimp only at h
    cases hsize : sscanfHex (buffer.take n) with
    | none => simp [hsize] at h
    | some chunkSize =>
      have h2 : crlf.length = 2 := rfl
      have hle := find_le hfind
      have hspec := find_spec hfind
      rw [hsize] at h
      dsimp only at h
      by_cases hmax : chunkSize > max
      · simp [hmax] at h
      by_cases hzero : chunkSize = 0
      · simp only [if_neg hmax, if_pos hzero] at h
        split at h <;> cases h
      simp only [if_neg hmax, if_neg hzero] at h
      by_cases hlen : buffer.length < n + 2 + chunkSize + 2
      · simp [hlen] at h
      rw [if_neg hlen] at h
      by_cases hend : (buffer.drop (n + 2 + chunkSize)).take 2 ≠ crlf
      · simp [hend] at h
      rw [if_neg hend] at h
      cases h
      have hchunk : ((buffer.drop (n + 2)).take chunkSize).length = chunkSize := by
        rw [List.length_take, List.length_drop]
        omega
      refine ⟨buffer.take n, ?_, ?_, ?_, by omega, by omega⟩
      · -- the bytes behind the head, cut at the end of the chunk and of its line end
        have htail : buffer.drop (n + 2) = (buffer.drop (n + 2)).take chunkSize ++ crlf ++
            buffer.drop (n + 2 + chunkSize + 2) := by
          conv_lhs => rw [← List.take_append_drop chunkSize (buffer.drop (n + 2)),
            List.drop_drop, ← List.take_append_drop 2 (buffer.drop (n + 2 + chunkSize)),
            not_not.mp hend, List.drop_drop]
          rw [List.append_assoc]
        rw [h2] at hspec
        conv_lhs => rw [hspec, htail]
        simp only [List.append_assoc]
      · rw [List.length_take, Nat.min_eq_left (by omega)]
      · rw [hchunk, hsize]

/-- The last chunk: a line that says zero. -/
theorem readChunk_last {max : Nat} (h : readChunk max buffer = .last rest) :
    ∃ head, buffer = head ++ crlf ++ rest ∧ find buffer crlf = some head.length ∧
      sscanfHex head = some 0 := by
  unfold readChunk at h
  cases hfind : find buffer crlf with
  | none => simp [hfind] at h
  | some n =>
    rw [hfind] at h
    dsimp only at h
    cases hsize : sscanfHex (buffer.take n) with
    | none => simp [hsize] at h
    | some chunkSize =>
      have hle := find_le hfind
      have hspec := find_spec hfind
      have h2 : crlf.length = 2 := rfl
      rw [hsize] at h
      dsimp only at h
      by_cases hmax : chunkSize > max
      · simp [hmax] at h
      by_cases hzero : chunkSize = 0
      · simp only [if_neg hmax, if_pos hzero] at h
        rw [hzero] at hsize
        split at h
        · cases h
        · cases h
          refine ⟨buffer.take n, hspec, ?_, hsize⟩
          rw [List.length_take, Nat.min_eq_left (by omega)]
      · simp only [if_neg hmax, if_neg hzero] at h
        split at h
        · cases h
        · split at h <;> cases h

theorem readStartLine_used (h : p.readStartLine buffer = (.done, q, rest)) :
    ∃ used, buffer = used ++ rest ∧ p.readStartLine used = (.done, q, []) := by
  have hread := handled_startLine p buffer
  rw [h] at hread
  cases hread with
  | @done n m hfind hmax hparse =>
    have hle := find_le hfind
    rw [length_crlf] at hle
    have hused : find (buffer.take (n + 2)) crlf = some n := by
      refine find_of_append (x := buffer.drop (n + 2)) ?_ ?_
      · rwa [List.take_append_drop]
      · rw [List.length_take, length_crlf]
        omega
    refine ⟨buffer.take (n + 2), (List.take_append_drop _ _).symm, ?_⟩
    rw [readStartLine_line hused hmax
      (by rwa [List.take_take, Nat.min_eq_left (Nat.le_add_right n 2)])]
    simp

theorem readHeader_used {trailer : Bool}
    (h : p.readHeader trailer message buffer = (.done, q, rest)) :
    ∃ used, buffer = used ++ rest ∧ p.readHeader trailer message used = (.done, q, []) := by
  have hread := handled_header p trailer message buffer
  rw [h] at hread
  cases hread with
  | bare hlen hend =>
    refine ⟨buffer.take 2, (List.take_append_drop _ _).symm, ?_⟩
    rw [readHeader_bare trailer (by rw [List.length_take]; omega) (by rwa [List.take_take, Nat.min_self])]
    simp
  | @block n m hlen hend hfind hmax hlines =>
    have hle := find_le hfind
    have h4 : (crlf ++ crlf).length = 4 := rfl
    rw [h4] at hle
    have hused : find (buffer.take (n + 4)) (crlf ++ crlf) = some n := by
      refine find_of_append (x := buffer.drop (n + 4)) ?_ ?_
      · rwa [List.take_append_drop]
      · rw [List.length_take, h4]
        omega
    refine ⟨buffer.take (n + 4), (List.take_append_drop _ _).symm, ?_⟩
    rw [readHeader_block trailer (by rw [List.length_take]; omega)
      (by rwa [List.take_take, Nat.min_eq_left (by omega)]) hused hmax
      (by rwa [List.take_take, Nat.min_eq_left (Nat.le_add_right n 4)])]
    simp

theorem readBody_used (hchunked : isChunked message = false)
    (h : p.readBody message buffer = (.done, q, rest)) :
    ∃ used, buffer = used ++ rest ∧ p.readBody message used = (.done, q, []) := by
  have hsized := handled_body hchunked p buffer
  rw [h] at hsized
  cases hsized with
  | @done n hhas hvalue hpos hmax hlen =>
    refine ⟨buffer.take n, (List.take_append_drop _ _).symm, ?_⟩
    rw [readBody_take hhas hvalue hpos hmax (by rw [List.length_take]; omega), List.take_take]
    simp
  | empty hhas hvalue => exact ⟨[], rfl, readBody_zero hhas hvalue []⟩

theorem readChunk_eq_data {max : Nat} {head chunk : Bytes} (rest : Bytes)
    (hfind : find (head ++ crlf ++ chunk ++ crlf ++ rest) crlf = some head.length)
    (hsize : sscanfHex head = some chunk.length) (hpos : 0 < chunk.length)
    (hle : chunk.length ≤ max) :
    readChunk max (head ++ crlf ++ chunk ++ crlf ++ rest) = .data chunk rest := by
  unfold readChunk
  rw [hfind]
  dsimp only
  have htake : (head ++ crlf ++ chunk ++ crlf ++ rest).take head.length = head := by
    simp only [List.append_assoc, List.take_left]
  rw [htake, hsize]
  dsimp only
  have hdrop : (head ++ crlf ++ chunk ++ crlf ++ rest).drop (head.length + 2) =
      chunk ++ (crlf ++ rest) := by
    rw [List.append_assoc, List.append_assoc, List.append_assoc, ← List.append_assoc,
      List.drop_left' (by simp)]
  have hend : (head ++ crlf ++ chunk ++ crlf ++ rest).drop (head.length + 2 + chunk.length) =
      crlf ++ rest := by
    rw [← List.drop_drop, hdrop, List.drop_left]
  have hrest : (head ++ crlf ++ chunk ++ crlf ++ rest).drop
      (head.length + 2 + chunk.length + 2) = rest := by
    rw [← List.drop_drop, hend]
    rfl
  have hzero : chunk.length ≠ 0 := by omega
  simp only [if_neg hzero]
  rw [if_neg (by omega), if_neg (by simp; omega), hdrop, hend, hrest, if_neg (by simp [crlf]),
    List.take_left]

theorem readChunk_eq_last (max : Nat) {head : Bytes} (rest : Bytes)
    (hfind : find (head ++ crlf ++ rest) crlf = some head.length) (hsize : sscanfHex head = some 0) :
    readChunk max (head ++ crlf ++ rest) = .last rest := by
  unfold readChunk
  rw [hfind]
  dsimp only
  have htake : (head ++ crlf ++ rest).take head.length = head := by
    simp only [List.append_assoc, List.take_left]
  rw [htake, hsize]
  dsimp only
  have hall : ¬ (head ++ crlf ++ rest).length < head.length + 2 := by
    rw [List.length_append, List.length_append, length_crlf]
    omega
  rw [if_neg (by omega), if_pos rfl, if_neg hall, if_pos rfl, List.drop_left' (by simp)]

/-- A chunk does not depend on what follows it. -/
theorem readChunk_used {max : Nat} :
    (∀ chunk, readChunk max buffer = .data chunk rest →
      ∃ used, buffer = used ++ rest ∧ readChunk max used = .data chunk []) ∧
    (readChunk max buffer = .last rest →
      ∃ used, buffer = used ++ rest ∧ readChunk max used = .last []) := by
  constructor
  · intro chunk h
    obtain ⟨head, hbuffer, hfind, hsize, hpos, hle⟩ := readChunk_data h
    refine ⟨head ++ crlf ++ chunk ++ crlf, hbuffer, ?_⟩
    have hused : find (head ++ crlf ++ chunk ++ crlf) crlf = some head.length :=
      find_of_append (x := rest) (by rwa [← hbuffer]) (by simp)
    have hdata := readChunk_eq_data [] (by rwa [List.append_nil]) hsize hpos hle
    rwa [List.append_nil] at hdata
  · intro h
    obtain ⟨head, hbuffer, hfind, hsize⟩ := readChunk_last h
    refine ⟨head ++ crlf, hbuffer, ?_⟩
    have hused : find (head ++ crlf) crlf = some head.length :=
      find_of_append (x := rest) (by rwa [← hbuffer]) (by simp)
    have hlast := readChunk_eq_last max [] (by rwa [List.append_nil]) hsize
    rwa [List.append_nil] at hlast

/-- A step does not depend on what it leaves. -/
theorem step_used {s : HttpProtocol} {out : List HttpMessage}
    (h : step p buffer = .next s rest out) :
    ∃ used, buffer = used ++ rest ∧ step p used = .next s [] out := by
  have hhandled : ∀ {read : Bytes → Handled × HttpProtocol × Bytes},
      (∀ {q rest}, read buffer = (.done, q, rest) →
        ∃ used, buffer = used ++ rest ∧ read used = (.done, q, [])) →
      ofHandled p (read buffer) = .next s rest out →
      ∃ used, buffer = used ++ rest ∧ ofHandled p (read used) = .next s [] out := by
    intro read hused he
    cases hr : read buffer with
    | mk handled r =>
      obtain ⟨q, rest'⟩ := r
      rw [hr] at he
      cases handled with
      | more => cases he
      | failed => cases he
      | done =>
        obtain ⟨used, hbuffer, hread⟩ := hused hr
        have he : proceed q rest' = .next s rest out := he
        refine ⟨used, ?_, ?_⟩
        · unfold proceed at he
          split at he <;> cases he <;> exact hbuffer
        · rw [hread]
          show proceed q [] = _
          unfold proceed at he ⊢
          split at he <;> cases he <;> rfl
  unfold step at h ⊢
  cases hstate : p.state with
  | readingStartLine =>
    rw [hstate] at h
    exact hhandled readStartLine_used h
  | readingHeader m =>
    rw [hstate] at h
    exact hhandled readHeader_used h
  | readingTrailerHeader m =>
    rw [hstate] at h
    exact hhandled readHeader_used h
  | finished m => simp [hstate] at h
  | pendingError => simp [hstate] at h
  | readingBody m =>
    rw [hstate] at h
    dsimp only at h ⊢
    by_cases hm : isChunked m = true
    · rw [if_pos hm] at h
      cases hc : readChunk p.bodyMaxSize buffer with
      | more => simp [hc, ofChunk] at h
      | failed => simp [hc, ofChunk] at h
      | data chunk rest' =>
        rw [hc] at h
        cases h
        obtain ⟨used, hbuffer, hread⟩ := readChunk_used.1 chunk hc
        refine ⟨used, hbuffer, ?_⟩
        rw [if_pos hm, hread]
        rfl
      | last rest' =>
        rw [hc] at h
        cases h
        obtain ⟨used, hbuffer, hread⟩ := readChunk_used.2 hc
        refine ⟨used, hbuffer, ?_⟩
        rw [if_pos hm, hread]
        rfl
    · rw [if_neg hm] at h
      simp only [if_neg hm]
      exact hhandled (readBody_used (by simpa using hm)) h

end HttpProtocol

end Brickred
