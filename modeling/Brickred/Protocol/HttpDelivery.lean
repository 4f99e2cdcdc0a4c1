import Brickred.Protocol.HttpRoundTrip

/-!
# Which lists of messages are delivered as they were sent

A line that `snprintf` fails to print takes its line end with it. What is read has a
line end for its start line, for every header, and for the empty line behind them, so
that a list from which a line is missing is not delivered: there are too few line
ends.
-/

namespace Brickred

open Incremental
open StringUtil (find find_spec trim isBlank)

namespace HttpProtocol

open HttpMessage

/-! ## Line ends that a message takes -/

/-- The line ends of a message, at least. -/
def lineEnds (m : HttpMessage) : Nat := 2 + m.headers.entries.length + m.body.count 13

/-- The line ends that have been taken for the message that is being read. -/
def lineEndsTaken (p : HttpProtocol) : Nat :=
  match p.state with
  | .readingStartLine => p.chunks.count 13
  | .readingHeader m => 1 + m.headers.entries.length + m.body.count 13 + p.chunks.count 13
  | .readingBody m => 2 + m.headers.entries.length + m.body.count 13 + p.chunks.count 13
  | .readingTrailerHeader m => 1 + m.headers.entries.length + m.body.count 13
  | .finished m => lineEnds m
  | .pendingError => 0

variable {p q : HttpProtocol} {m message : HttpMessage} {buffer rest : Bytes}

theorem parseStartLine_empty {parts : List Bytes} (h : parseStartLine parts = some m) :
    m.headers.entries = [] ∧ m.body = [] := by
  unfold parseStartLine at h
  split at h
  · split at h
    · dsimp only at h
      split at h
      · cases h
      · split at h
        · cases h
        · cases h
          exact ⟨rfl, rfl⟩
    · dsimp only at h
      split at h
      · cases h
      · split at h
        · cases h
        · cases h
          exact ⟨rfl, rfl⟩
  · cases h

theorem readStartLine_lineEnds (hstate : p.state = .readingStartLine)
    (h : p.readStartLine buffer = (.done, q, rest)) :
    lineEndsTaken q + rest.count 13 ≤ lineEndsTaken p + buffer.count 13 := by
  have hread := handled_startLine p buffer
  rw [h] at hread
  cases hread with
  | done hfind hmax hparse =>
    have hbuffer := congrArg (List.count 13) (find_spec hfind)
    have hcrlf : crlf.count 13 = 1 := rfl
    rw [List.count_append, List.count_append, hcrlf, length_crlf] at hbuffer
    obtain ⟨hheaders, hbody⟩ := parseStartLine_empty hparse
    have hbase : lineEndsTaken p = p.chunks.count 13 := by
      simp only [lineEndsTaken, hstate]
    show 1 + _ + _ + p.chunks.count 13 + _ ≤ _
    rw [hheaders, hbody, List.length_nil, List.count_nil]
    omega

/-- Every line adds a header at most. -/
theorem foldlM_setHeaderLine {lines : List Bytes}
    (h : lines.foldlM setHeaderLine message = some m) :
    m.headers.entries.length ≤ message.headers.entries.length + lines.length ∧
      m.body = message.body := by
  induction lines generalizing message with
  | nil =>
    cases h
    exact ⟨Nat.le_refl _, rfl⟩
  | cons line lines ih =>
    rw [List.foldlM_cons] at h
    obtain ⟨m₁, h₁, hrest⟩ := Option.bind_eq_some_iff.mp h
    obtain ⟨colon, -, rfl⟩ := Option.map_eq_some_iff.mp h₁
    obtain ⟨hlen, hbody⟩ := ih hrest
    have hinsert : (message.setHeader (trim (line.take colon))
        (trim (cstr (line.drop (colon + 1))))).headers.entries.length ≤
          message.headers.entries.length + 1 :=
      SortedMap.length_insert_le _ _ _
    refine ⟨?_, hbody⟩
    rw [List.length_cons]
    omega

theorem readHeader_lineEnds (trailer : Bool)
    (hstate : p.state = if trailer then .readingTrailerHeader message else .readingHeader message)
    (h : p.readHeader trailer message buffer = (.done, q, rest)) :
    lineEndsTaken q + rest.count 13 ≤ lineEndsTaken p + buffer.count 13 := by
  have hbase : 1 + message.headers.entries.length + message.body.count 13 ≤ lineEndsTaken p ∧
      (trailer = false → 1 + message.headers.entries.length + message.body.count 13 +
        p.chunks.count 13 = lineEndsTaken p) := by
    cases trailer with
    | true =>
      simp only [lineEndsTaken, hstate]
      exact ⟨Nat.le_refl _, nofun⟩
    | false =>
      simp only [lineEndsTaken, hstate]
      exact ⟨Nat.le_add_right _ _, fun _ => rfl⟩
  have hread := handled_header p trailer message buffer
  rw [h] at hread
  cases hread with
  | bare hlen hend =>
    have hbuffer := congrArg (List.count 13) (List.take_append_drop 2 buffer)
    have hcrlf : crlf.count 13 = 1 := rfl
    rw [hend, List.count_append, hcrlf] at hbuffer
    show lineEnds message + _ ≤ _
    unfold lineEnds
    omega
  | @block n m hlen hend hfind hmax hlines =>
    have hbuffer := congrArg (List.count 13) (find_spec hfind)
    have hcrlf : (crlf ++ crlf).count 13 = 2 := rfl
    have h4 : (crlf ++ crlf).length = 4 := rfl
    rw [List.count_append, List.count_append, hcrlf, h4] at hbuffer
    obtain ⟨hlength, hbody⟩ := foldlM_setHeaderLine hlines
    have hsplit := length_split_le (buffer.take n)
    cases trailer with
    | true =>
      show lineEnds _ + _ ≤ _
      unfold lineEnds
      rw [hbody]
      omega
    | false =>
      have hbase := hbase.2 rfl
      show 2 + _ + _ + p.chunks.count 13 + _ ≤ _
      rw [hbody]
      omega

theorem readBody_lineEnds (hstate : p.state = .readingBody message)
    (hchunked : isChunked message = false)
    (h : p.readBody message buffer = (.done, q, rest)) :
    lineEndsTaken q + rest.count 13 ≤ lineEndsTaken p + buffer.count 13 := by
  have hbase : lineEndsTaken p = 2 + message.headers.entries.length + message.body.count 13 +
      p.chunks.count 13 := by
    simp only [lineEndsTaken, hstate]
  have hsized := handled_body hchunked p buffer
  rw [h] at hsized
  cases hsized with
  | @done n =>
    have hbuffer := congrArg (List.count 13) (List.take_append_drop n buffer)
    rw [List.count_append] at hbuffer
    show 2 + message.headers.entries.length + (buffer.take n).count 13 + _ ≤ _
    omega
  | empty =>
    show 2 + message.headers.entries.length + message.body.count 13 + _ ≤ _
    omega

/-- A message that has been read has taken a line end for each of its lines. -/
theorem step_lineEnds {s : HttpProtocol} {out : List HttpMessage}
    (h : step p buffer = .next s rest out) :
    lineEndsTaken s + (out.map lineEnds).sum + rest.count 13 ≤
      lineEndsTaken p + buffer.count 13 := by
  have hproceed : ∀ {q : HttpProtocol} {rest'}, proceed q rest' = .next s rest out →
      lineEndsTaken s + (out.map lineEnds).sum = lineEndsTaken q ∧ rest = rest' := by
    intro q rest' he
    unfold proceed at he
    split at he
    · rename_i m hm
      cases he
      refine ⟨?_, rfl⟩
      have hq : lineEndsTaken q = lineEnds m := by
        simp only [lineEndsTaken, hm]
      show 0 + (lineEnds m + 0) = _
      omega
    · cases he
      refine ⟨?_, rfl⟩
      show lineEndsTaken q.opened = _
      unfold opened
      split
      · split
        · unfold lineEndsTaken openChunkBuffer
          rfl
        · rfl
      · rfl
  have hhandled : ∀ {r : Handled × HttpProtocol × Bytes},
      (∀ {q rest}, r = (.done, q, rest) →
        lineEndsTaken q + rest.count 13 ≤ lineEndsTaken p + buffer.count 13) →
      ofHandled p r = .next s rest out →
      lineEndsTaken s + (out.map lineEnds).sum + rest.count 13 ≤
        lineEndsTaken p + buffer.count 13 := by
    rintro ⟨handled, q, rest'⟩ hread he
    cases handled with
    | more => cases he
    | failed => cases he
    | done =>
      obtain ⟨hs, rfl⟩ := hproceed (he : proceed q rest' = _)
      rw [hs]
      exact hread rfl
  unfold step at h
  cases hstate : p.state with
  | readingStartLine =>
    rw [hstate] at h
    exact hhandled (readStartLine_lineEnds hstate) h
  | readingHeader m =>
    rw [hstate] at h
    exact hhandled (readHeader_lineEnds false hstate) h
  | readingTrailerHeader m =>
    rw [hstate] at h
    exact hhandled (readHeader_lineEnds true hstate) h
  | finished m => simp [hstate] at h
  | pendingError => simp [hstate] at h
  | readingBody m =>
    rw [hstate] at h
    dsimp only at h
    by_cases hm : isChunked m = true
    · rw [if_pos hm] at h
      have hbase : lineEndsTaken p = 2 + m.headers.entries.length + m.body.count 13 +
          p.chunks.count 13 := by
        simp only [lineEndsTaken, hstate]
      cases hc : readChunk p.bodyMaxSize buffer with
      | more => simp [hc, ofChunk] at h
      | failed => simp [hc, ofChunk] at h
      | data chunk rest' =>
        rw [hc] at h
        cases h
        obtain ⟨head, rfl, -⟩ := readChunk_data hc
        have happend : lineEndsTaken (p.appendChunk chunk) =
            2 + m.headers.entries.length + m.body.count 13 + (p.chunks ++ chunk).count 13 := by
          unfold lineEndsTaken appendChunk
          rw [hstate]
          rfl
        rw [happend]
        simp only [List.count_append, List.map_nil, List.sum_nil]
        omega
      | last rest' =>
        rw [hc] at h
        cases h
        obtain ⟨head, rfl, -⟩ := readChunk_last hc
        have hinsert := SortedMap.length_insert_le m.headers (bytes "Content-Length")
          (StringUtil.toString p.chunks.length)
        have herase := SortedMap.length_erase_le
          (m.headers.insert (bytes "Content-Length") (StringUtil.toString p.chunks.length))
          (bytes "Transfer-Encoding")
        have hbegin : lineEndsTaken (p.beginTrailer m) =
            1 + ((m.headers.insert (bytes "Content-Length")
              (StringUtil.toString p.chunks.length)).erase (bytes "Transfer-Encoding")).entries.length +
              p.chunks.count 13 := rfl
        rw [hbegin]
        simp only [List.count_append, List.map_nil, List.sum_nil]
        omega
    · rw [if_neg hm] at h
      exact hhandled (readBody_lineEnds hstate (by simpa using hm)) h

/-! ## Writing and reading a list -/

/-- `writeMessage` for messages one after another. -/
def writeMessages (ms : List HttpMessage) (b : DynamicBuffer) : Option DynamicBuffer :=
  ms.foldlM (fun b m => writeMessage m b) b

theorem intStatus (h : PlainStart m.startLine) : IntStatus m.startLine := by
  cases hm : m.startLine with
  | request method uri => trivial
  | response code reason =>
    rw [hm] at h
    obtain ⟨hpos, hlt, -⟩ := h
    exact ⟨by omega, hlt⟩

/-- `writeMessages` appends what is written of each message. -/
theorem writeMessages_spec {ms : List HttpMessage} {b : DynamicBuffer}
    (hms : ∀ m ∈ ms, PlainStart m.startLine)
    (hfit : b.readableBytes + (ms.map reserved).sum + b.expandSize < 2 ^ 63) :
    ∃ b', writeMessages ms b = some b' ∧ b'.readable = b.readable ++ ms.flatMap written := by
  induction ms generalizing b with
  | nil => exact ⟨b, rfl, (List.append_nil _).symm⟩
  | cons m ms ih =>
    rw [List.map_cons, List.sum_cons] at hfit
    obtain ⟨b₁, e₁, hread₁, hexpand₁⟩ := writeMessage_spec (b := b) m
      (intStatus (hms m (.head _))) (by omega)
    have hlen := congrArg List.length hread₁
    have hwritten := length_written_le (intStatus (hms m (.head _)))
    rw [List.length_append, DynamicBuffer.length_readable, DynamicBuffer.length_readable] at hlen
    obtain ⟨b₂, e₂, hread₂⟩ := ih (b := b₁) (fun m' hm' => hms m' (.tail _ hm')) (by omega)
    refine ⟨b₂, Option.bind_eq_some_iff.mpr ⟨b₁, e₁, e₂⟩, ?_⟩
    rw [hread₂, hread₁, List.flatMap_cons, List.append_assoc]

theorem written_eq_wire (h : Printable m) : written m = wire m := by
  have hheaders : m.headers.entries.flatMap (fun h => printed (formatHeader h)) =
      m.headers.entries.flatMap formatHeader :=
    List.flatMap_congr fun h' hmem => if_pos (h.2 h' hmem)
  rw [written, wire, hheaders, printed, if_pos h.1]

theorem count_formatStartLine (h : PlainStart m.startLine) : (formatStartLine m).count 13 = 1 := by
  obtain ⟨hv13, -⟩ := versionStr_spec m.version
  have hcrlf : crlf.count 13 = 1 := rfl
  have hblank : (bytes " ").count 13 = 0 := rfl
  have hv := List.count_eq_zero_of_not_mem hv13
  unfold formatStartLine
  cases hm : m.startLine with
  | request method uri =>
    rw [hm] at h
    obtain ⟨-, -, h13, -, h0⟩ := h
    obtain ⟨hm13, -⟩ := methodStr_spec method
    simp only [List.count_append, cstr_eq h0, hv, hblank, hcrlf,
      List.count_eq_zero_of_not_mem hm13, List.count_eq_zero_of_not_mem h13]
  | response code reason =>
    rw [hm] at h
    obtain ⟨hpos, -, h13, -, h0⟩ := h
    have hcode : (StringUtil.toStringInt code).count 13 = 0 := by
      unfold StringUtil.toStringInt
      rw [if_neg (by omega)]
      exact List.count_eq_zero_of_not_mem (not_mem_toString _ (.inl (by decide)))
    simp only [List.count_append, cstr_eq h0, hv, hblank, hcrlf, hcode,
      List.count_eq_zero_of_not_mem h13]

/-- A line that is left out takes its line end with it. -/
theorem count_written (h : WellFormed m) :
    (written m).count 13 ≤ lineEnds m ∧ (lineEnds m ≤ (written m).count 13 → Printable m) := by
  have hcrlf : crlf.count 13 = 1 := rfl
  have hstart : (printed (formatStartLine m)).count 13 =
      if (formatStartLine m).length < 2 ^ 31 then 1 else 0 := by
    unfold printed
    split
    · exact count_formatStartLine h.start
    · rfl
  have hheaders : ∀ hs : List (Bytes × Bytes), (∀ h ∈ hs, PlainHeader h) →
      (hs.flatMap fun h => printed (formatHeader h)).count 13 =
        hs.countP fun h => (formatHeader h).length < 2 ^ 31 := by
    intro hs hplain
    induction hs with
    | nil => rfl
    | cons h' hs ih =>
      have hh := hplain h' (.head _)
      have hformat := formatHeader_eq (lineHeader_of_plainHeader hh)
      have hl13 : (13 : UInt8) ∉ headerLine h' :=
        not_mem_headerLine hh.name_plain.1 hh.value_plain.1 (by decide)
      rw [List.flatMap_cons, List.count_append, ih fun h hmem => hplain h (.tail _ hmem),
        List.countP_cons, Nat.add_comm]
      congr 1
      unfold printed
      split
      · rename_i hshort
        rw [if_pos (decide_eq_true hshort), hformat, List.count_append,
          List.count_eq_zero_of_not_mem hl13, hcrlf]
      · rename_i hlong
        rw [if_neg (by rwa [decide_eq_true_eq])]
        rfl
  have hle := List.countP_le_length (p := fun h => decide ((formatHeader h).length < 2 ^ 31))
    (l := m.headers.entries)
  have hcount : (written m).count 13 = (if (formatStartLine m).length < 2 ^ 31 then 1 else 0) +
      m.headers.entries.countP (fun h => (formatHeader h).length < 2 ^ 31) + 1 +
        m.body.count 13 := by
    rw [written, List.count_append, List.count_append, List.count_append, hstart, hcrlf,
      hheaders _ h.headers]
  unfold lineEnds
  rw [hcount]
  constructor
  · split <;> omega
  · intro hge
    split at hge
    · rename_i hshort
      have hall := List.countP_eq_length.mp (Nat.le_antisymm hle (by omega))
      exact ⟨hshort, fun h' hmem => by simpa using hall h' hmem⟩
    · omega

/-- What is read at once has the line ends of what it delivers. -/
theorem sum_lineEnds_le {ms : List HttpMessage} {e : Bool}
    (h : outcome p.reset [buffer] = (ms, e)) (he : e = false) :
    (ms.map lineEnds).sum ≤ buffer.count 13 := by
  obtain ⟨messages, r, hfeeds, hout⟩ := outcome_feeds p [buffer]
  rw [feeds_wait_cons_iff (step_nil_reset p), List.nil_append, feeds_single_iff] at hfeeds
  obtain ⟨rfl, hr⟩ := Prod.mk.inj (h.symm.trans hout)
  cases r with
  | halted e' s => simp [he, Outcome.waiting?] at hr
  | waiting s rest =>
    have hpotential := hfeeds.steps.1.potential lineEndsTaken (List.count 13)
      lineEnds fun {s b s' rest out} hnext => by
        have hover : overLimit s b = false := by
          by_contra hover
          rw [guardedStep, guarded_over (by simpa using hover)] at hnext
          cases hnext
        rw [guardedStep_eq hover] at hnext
        exact step_lineEnds hnext
    have hzero : lineEndsTaken p.reset = 0 := rfl
    omega

/-- The messages, written one after another, are read back however the bytes are
cut. -/
def Delivered (p : HttpProtocol) (ms : List HttpMessage) (b : DynamicBuffer) : Prop :=
  ∃ b', writeMessages ms b = some b' ∧
    ∀ pieces : List Bytes, pieces.flatten = b'.readable → outcome p.reset pieces = (ms, false)

variable {ms : List HttpMessage} {b : DynamicBuffer}

theorem delivered_of_printable (hempty : b.readable = [])
    (hms : ∀ m ∈ ms, WellFormed m ∧ Within p m)
    (hfit : (ms.map reserved).sum + b.expandSize < 2 ^ 63) (h : ∀ m ∈ ms, Printable m) :
    Delivered p ms b := by
  have hzero : b.readableBytes = 0 := by
    rw [← DynamicBuffer.length_readable, hempty, List.length_nil]
  obtain ⟨b', hwrite, hread⟩ := writeMessages_spec (b := b) (fun m hm => (hms m hm).1.start)
    (by omega)
  have hwire : ms.flatMap written = ms.flatMap wire :=
    List.flatMap_congr fun m hm => written_eq_wire (h m hm)
  rw [hempty, List.nil_append, hwire] at hread
  refine ⟨b', hwrite, fun pieces hpieces => ?_⟩
  obtain ⟨messages, r, hfeeds, hout⟩ := outcome_feeds p pieces
  have hrun := (runs_wires hms).runs (.wait (step_nil_reset p))
  rw [List.append_nil] at hrun
  obtain ⟨rfl, rfl⟩ := hfeeds.guarded_runs step_stable trivial overLimit_mono hrun nofun
    (by rw [List.nil_append, hpieces, hread])
  exact hout

theorem printable_of_delivered (hempty : b.readable = [])
    (hms : ∀ m ∈ ms, WellFormed m)
    (hfit : (ms.map reserved).sum + b.expandSize < 2 ^ 63) (h : Delivered p ms b) :
    ∀ m ∈ ms, Printable m := by
  have hzero : b.readableBytes = 0 := by
    rw [← DynamicBuffer.length_readable, hempty, List.length_nil]
  obtain ⟨b', hwrite, hread⟩ := writeMessages_spec (b := b) (fun m hm => (hms m hm).start)
    (by omega)
  obtain ⟨b'', hwrite', hout⟩ := h
  cases hwrite.symm.trans hwrite'
  rw [hempty, List.nil_append] at hread
  have hsum := sum_lineEnds_le (hout [b'.readable] (by simp)) rfl
  rw [hread] at hsum
  -- no message has more line ends on the wire than it has lines, so none has fewer
  clear hout hread hwrite hwrite' hfit
  induction ms with
  | nil => exact nofun
  | cons m ms ih =>
    have hle : ∀ ms' : List HttpMessage, (∀ m ∈ ms', WellFormed m) →
        (ms'.flatMap written).count 13 ≤ (ms'.map lineEnds).sum := by
      intro ms' hms'
      induction ms' with
      | nil => exact Nat.le_refl _
      | cons m' ms' ih' =>
        have h₁ := (count_written (hms' m' (.head _))).1
        have h₂ := ih' fun m hm => hms' m (.tail _ hm)
        rw [List.flatMap_cons, List.count_append, List.map_cons, List.sum_cons]
        omega
    obtain ⟨hcount, hprintable⟩ := count_written (hms m (.head _))
    have htail := hle ms fun m' hm' => hms m' (.tail _ hm')
    rw [List.flatMap_cons, List.count_append, List.map_cons, List.sum_cons] at hsum
    intro m' hm'
    cases hm' with
    | head => exact hprintable (by omega)
    | tail _ hm' => exact ih (fun m hm => hms m (.tail _ hm)) (by omega) m' hm'

/-- Messages are delivered as they were sent exactly if `snprintf` can print each of
their lines. -/
theorem delivered_iff_printable (hempty : b.readable = [])
    (hms : ∀ m ∈ ms, WellFormed m ∧ Within p m)
    (hfit : (ms.map reserved).sum + b.expandSize < 2 ^ 63) :
    Delivered p ms b ↔ ∀ m ∈ ms, Printable m :=
  ⟨printable_of_delivered hempty (fun m hm => (hms m hm).1) hfit,
    delivered_of_printable hempty hms hfit⟩

/-- A request without a body, with a header `X`. -/
def requestWith (value : Bytes) : HttpMessage where
  startLine := .request .get (bytes "/")
  version := .http11
  headers :=
    ⟨[(bytes "Content-Length", bytes "0"), (bytes "X", value)],
      List.pairwise_pair.mpr
        (show StringUtil.caseInsensitiveLess (bytes "Content-Length") (bytes "X") = true by decide)⟩
  body := []

theorem wellFormed_requestWith {value : Bytes} (ht : Trimmed value) (hp : Plain value) :
    WellFormed (requestWith value) where
  start := ⟨by decide, by decide, by decide, by decide, by decide⟩
  version := (nofun : Version.http11 ≠ .unknown)
  headers := by
    intro h hmem
    cases hmem with
    | head =>
      exact ⟨by decide, by decide, by decide, ⟨by decide, by decide, by decide⟩,
        by decide, ⟨by decide, by decide, by decide⟩⟩
    | tail _ hmem =>
      cases List.mem_singleton.mp hmem
      have hname : bytes "X" ≠ [] ∧ (58 : UInt8) ∉ bytes "X" ∧ Trimmed (bytes "X") ∧
          Plain (bytes "X") :=
        ⟨by decide, by decide, by decide, ⟨by decide, by decide, by decide⟩⟩
      exact ⟨hname.1, hname.2.1, hname.2.2.1, hname.2.2.2, ht, hp⟩
  contentLength := by
    have hzero : StringUtil.toString 0 = bytes "0" := by decide
    have hequal : ¬ StringUtil.caseInsensitiveLess (bytes "Content-Length") (bytes "Content-Length") := by
      decide
    show Option.map Prod.snd (List.find? _ [(bytes "Content-Length", bytes "0"), (bytes "X", value)]) =
      some (StringUtil.toString 0)
    rw [List.find?_cons_of_pos, hzero]
    · rfl
    · exact decide_eq_true ⟨hequal, hequal⟩
  body := Nat.two_pow_pos 31

/-- The lengths of the lines of `requestWith`. -/
theorem length_requestWith {value : Bytes} (hp : Plain value) :
    (formatStartLine (requestWith value)).length = 16 ∧
      ((requestWith value).headers.entries.map fun h => (formatHeader h).length) =
        [19, value.length + 5] ∧
      reserved (requestWith value) = 147 + value.length := by
  have hx : (formatHeader (bytes "X", value)).length = value.length + 5 := by
    have hname : (cstr (bytes "X")).length = 1 := rfl
    have hcolon : (bytes ": ").length = 2 := rfl
    rw [formatHeader, cstr_eq hp.2.2, List.length_append, List.length_append, List.length_append,
      hname, hcolon, length_crlf]
    omega
  refine ⟨rfl, ?_, ?_⟩
  · show [(formatHeader _).length, (formatHeader _).length] = _
    rw [hx]
    rfl
  · have hlen : (bytes "X").length = 1 := rfl
    show 65 + (47 + (32 + (bytes "X").length + value.length + 0)) + 2 + 0 = _
    omega

theorem within_requestWith {value : Bytes} (hp : Plain value) (hstart : 16 ≤ p.startLineMaxSize)
    (hheader : value.length + 26 ≤ p.headerMaxSize) : Within p (requestWith value) where
  start := by
    rw [(length_requestWith hp).1]
    exact hstart
  headers := by
    rw [List.length_flatMap, (length_requestWith hp).2.1]
    simp only [List.sum_cons, List.sum_nil]
    omega
  body := Nat.zero_le _

theorem plain_replicate (n : Nat) :
    Trimmed (List.replicate n 97) ∧ Plain (List.replicate n 97) := by
  have hne : ∀ c : UInt8, c ≠ 97 → c ∉ List.replicate n 97 := fun c hc hmem =>
    hc (List.eq_of_mem_replicate hmem)
  have hblank : ∀ c ∈ List.replicate n (97 : UInt8), isBlank c = false := by
    intro c hc
    rw [List.eq_of_mem_replicate hc]
    rfl
  exact ⟨⟨fun c hc => hblank c (List.mem_of_mem_head? hc),
      fun c hc => hblank c (List.mem_of_getLast? hc)⟩,
    ⟨hne 13 (by decide), hne 10 (by decide), hne 0 (by decide)⟩⟩

/-- A header line of `2 ^ 31` bytes and five is within a limit of `2 ^ 32` and is left
out when the message is written. -/
theorem not_delivered : ∃ p b m, WellFormed m ∧ Within p m ∧
    DynamicBuffer.construct 1024 1024 = some b ∧ p = construct.setHeaderMaxSize (2 ^ 32) ∧
      m = requestWith (List.replicate (2 ^ 31) 97) ∧ ¬ Delivered p [m] b := by
  obtain ⟨b, hb⟩ : ∃ b, DynamicBuffer.construct 1024 1024 = some b := ⟨_, rfl⟩
  obtain ⟨ht, hp⟩ := plain_replicate (2 ^ 31)
  obtain ⟨-, hlines, hreserved⟩ := length_requestWith hp
  have hwell := wellFormed_requestWith ht hp
  have hlimit : (List.replicate (2 ^ 31) (97 : UInt8)).length + 26 ≤
      (construct.setHeaderMaxSize (2 ^ 32)).headerMaxSize := by
    rw [List.length_replicate]
    decide
  have hexpand : b.expandSize = 1024 := by
    cases hb
    rfl
  refine ⟨_, b, _, hwell, within_requestWith hp (by decide) hlimit, hb, rfl, rfl,
    fun hdelivered => ?_⟩
  have hprintable := printable_of_delivered (DynamicBuffer.readable_construct hb)
    (fun m hm => List.mem_singleton.mp hm ▸ hwell)
    (by rw [hexpand, List.map_singleton, List.sum_singleton, hreserved, List.length_replicate]; decide)
    hdelivered _ (.head _)
  have hmem : (List.replicate (2 ^ 31) (97 : UInt8)).length + 5 ∈
      (requestWith (List.replicate (2 ^ 31) 97)).headers.entries.map
        fun h => (formatHeader h).length := by
    rw [hlines]
    exact .tail _ (.head _)
  obtain ⟨h, hheader, hlen⟩ := List.mem_map.mp hmem
  have hshort := hprintable.2 h hheader
  rw [List.length_replicate] at hlen
  omega

/-- A request whose header `X` is one byte is delivered. -/
theorem delivered_iff_printable_short : ∃ b, DynamicBuffer.construct 1024 1024 = some b ∧
    Delivered construct [requestWith [97]] b := by
  obtain ⟨b, hb⟩ : ∃ b, DynamicBuffer.construct 1024 1024 = some b := ⟨_, rfl⟩
  have hexpand : b.expandSize = 1024 := by
    cases hb
    rfl
  have hp : Plain [97] := ⟨by decide, by decide, by decide⟩
  refine ⟨b, hb, (delivered_iff_printable (DynamicBuffer.readable_construct hb) ?_ ?_).mpr ?_⟩
  · intro m hm
    rw [List.mem_singleton.mp hm]
    exact ⟨wellFormed_requestWith (by decide) hp,
      within_requestWith hp (by decide) (by decide)⟩
  · rw [hexpand]
    decide
  · intro m hm
    rw [List.mem_singleton.mp hm]
    exact ⟨by decide, by decide⟩

end HttpProtocol

end Brickred
