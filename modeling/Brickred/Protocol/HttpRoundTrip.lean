import Brickred.Protocol.HttpCuts
import Brickred.Protocol.HttpWriter
import Brickred.Text.Format

/-!
# Messages written and read back
-/

namespace Brickred

open Incremental
open StringUtil (find split trim)

/-- No CR, LF or NUL. -/
def Plain (s : Bytes) : Prop := (13 : UInt8) ∉ s ∧ (10 : UInt8) ∉ s ∧ (0 : UInt8) ∉ s

namespace HttpMessage

/-- A start line that can be told from its three parts. -/
def PlainStart : StartLine → Prop
  | .request method requestUri =>
    method ≠ .unknown ∧ (32 : UInt8) ∉ requestUri ∧ Plain requestUri
  | .response statusCode reasonPhrase =>
    0 < statusCode ∧ statusCode < 2 ^ 31 ∧ Plain reasonPhrase

/-- A header that can be told from its line. -/
structure PlainHeader (h : Bytes × Bytes) : Prop where
  name_ne : h.1 ≠ []
  name_colon : (58 : UInt8) ∉ h.1
  name_trimmed : Trimmed h.1
  name_plain : Plain h.1
  value_trimmed : Trimmed h.2
  value_plain : Plain h.2

/-- A message that says how long its body is. -/
structure WellFormed (m : HttpMessage) : Prop where
  start : PlainStart m.startLine
  version : m.version ≠ .unknown
  headers : ∀ h ∈ m.headers.entries, PlainHeader h
  contentLength :
    m.headers.find (bytes "Content-Length") = some (StringUtil.toString m.body.length)
  body : m.body.length < 2 ^ 31

/-- A header's line. -/
def headerLine (h : Bytes × Bytes) : Bytes := h.1 ++ bytes ": " ++ h.2

/-- A start line that is written whole, and in one line. -/
def LineStart : StartLine → Prop
  | .request method requestUri =>
    method ≠ .unknown ∧ (32 : UInt8) ∉ requestUri ∧ Unbroken requestUri ∧ (0 : UInt8) ∉ requestUri
  | .response statusCode reasonPhrase =>
    0 < statusCode ∧ statusCode < 2 ^ 31 ∧ Unbroken reasonPhrase ∧ (0 : UInt8) ∉ reasonPhrase

/-- A header that is written whole, and in one line. -/
structure LineHeader (h : Bytes × Bytes) : Prop where
  unbroken : Unbroken (headerLine h)
  name_nul : (0 : UInt8) ∉ h.1
  value_nul : (0 : UInt8) ∉ h.2

/-- The name with which a header's line is read. -/
def fieldName (key : Bytes) : Bytes := trim (key.takeWhile (· ≠ 58))

/-- The header as which a header's line is read. -/
def field (h : Bytes × Bytes) : Bytes × Bytes :=
  (fieldName h.1, trim ((headerLine h).drop ((h.1.takeWhile (· ≠ 58)).length + 1)))

/-- A message that is read as it is from its bytes. -/
structure Legible (m : HttpMessage) : Prop where
  start : LineStart m.startLine
  version : m.version ≠ .unknown
  headers : ∀ h ∈ m.headers.entries, LineHeader h ∧ field h = h
  contentLength :
    m.headers.find (bytes "Content-Length") = some (StringUtil.toString m.body.length)
  body : m.body.length < 2 ^ 31

/-- Headers as they are read when they have been written. -/
def reread (headers : HeaderMap) : HeaderMap :=
  SortedMap.empty.insertAll (headers.entries.map field)

/-- The message once its start line is read. -/
def begun (m : HttpMessage) : HttpMessage := ⟨m.startLine, m.version, .empty, []⟩

end HttpMessage

namespace HttpProtocol

open HttpMessage

/-- The message is within the limits: its start line with its line end, its headers
with the empty line, and its body. -/
structure Within (p : HttpProtocol) (m : HttpMessage) : Prop where
  start : (formatStartLine m).length ≤ p.startLineMaxSize
  headers : (m.headers.entries.flatMap formatHeader).length + 2 ≤ p.headerMaxSize
  body : m.body.length ≤ p.bodyMaxSize

/-- `snprintf` returns the length of every line of the message. -/
def Printable (m : HttpMessage) : Prop :=
  (formatStartLine m).length < 2 ^ 31 ∧
    ∀ h ∈ m.headers.entries, (formatHeader h).length < 2 ^ 31

/-- The bytes of a message. -/
def wire (m : HttpMessage) : Bytes :=
  formatStartLine m ++ m.headers.entries.flatMap formatHeader ++ crlf ++ m.body

variable {p : HttpProtocol} {m : HttpMessage} {h : Bytes × Bytes} {t : Bytes}

/-! ## Start line -/

theorem versionStr_spec (v : Version) : (13 : UInt8) ∉ versionEnumToStr v ∧
    (32 : UInt8) ∉ versionEnumToStr v ∧
    (v ≠ .unknown → versionStrToEnum (versionEnumToStr v) = v ∧
      4 ≤ (versionEnumToStr v).length ∧ (versionEnumToStr v).take 4 = bytes "HTTP") := by
  cases v <;> decide

theorem methodStr_spec (v : Method) : (13 : UInt8) ∉ methodEnumToStr v ∧
    (32 : UInt8) ∉ methodEnumToStr v ∧
    (v ≠ .unknown → methodStrToEnum (methodEnumToStr v) = v ∧
      (methodEnumToStr v).take 4 ≠ bytes "HTTP") := by
  cases v <;> decide

/-- A start line is three parts, the first two without a blank, and is read back. -/
theorem formatStartLine_parts (hstart : LineStart m.startLine) (hversion : m.version ≠ .unknown) :
    ∃ a b c, formatStartLine m = a ++ bytes " " ++ (b ++ bytes " " ++ c) ++ crlf ∧
      (32 : UInt8) ∉ a ∧ (32 : UInt8) ∉ b ∧ Unbroken (a ++ bytes " " ++ (b ++ bytes " " ++ c)) ∧
      parseStartLine [a, b, c] = some (begun m) := by
  obtain ⟨hv13, hv32, hv⟩ := versionStr_spec m.version
  obtain ⟨hvread, hvlen, hvtake⟩ := hv hversion
  have hblank : bytes " " = [32] := rfl
  unfold formatStartLine begun
  cases hm : m.startLine with
  | request method uri =>
    rw [hm] at hstart
    obtain ⟨hmethod, huri32, huri, huri0⟩ := hstart
    obtain ⟨hm13, hm32, hmread⟩ := methodStr_spec method
    obtain ⟨hmread, hmtake⟩ := hmread hmethod
    refine ⟨methodEnumToStr method, uri, versionEnumToStr m.version, ?_, hm32, huri32, ?_, ?_⟩
    · simp only [cstr_eq huri0, List.append_assoc]
    · rw [hblank]
      exact (unbroken_of_not_mem hm13).append_blank (huri.append_blank (unbroken_of_not_mem hv13))
    · unfold parseStartLine
      simp [hmtake, hmread, hmethod, hvread, hversion]
  | response code reason =>
    rw [hm] at hstart
    obtain ⟨hpos, hlt, hreason, hreason0⟩ := hstart
    have hcode : StringUtil.toStringInt code = StringUtil.toString code.toNat := by
      unfold StringUtil.toStringInt
      rw [if_neg (by omega)]
      congr 1
      omega
    have hread : atoi (StringUtil.toString code.toNat) = code := by
      rw [atoi_toString (by omega)]
      omega
    have hc13 : (13 : UInt8) ∉ StringUtil.toString code.toNat :=
      not_mem_toString _ (.inl (by decide))
    have hc32 : (32 : UInt8) ∉ StringUtil.toString code.toNat :=
      not_mem_toString _ (.inl (by decide))
    refine ⟨versionEnumToStr m.version, StringUtil.toString code.toNat, reason, ?_, hv32, hc32,
      ?_, ?_⟩
    · simp only [cstr_eq hreason0, hcode, List.append_assoc]
    · rw [hblank]
      exact (unbroken_of_not_mem hv13).append_blank
        ((unbroken_of_not_mem hc13).append_blank hreason)
    · have hne : ¬ code ≤ 0 := by omega
      unfold parseStartLine
      simp [hvlen, hvtake, hvread, hversion, hread, hne]

theorem readStartLine_format (hstart : LineStart m.startLine) (hversion : m.version ≠ .unknown)
    (hle : (formatStartLine m).length ≤ p.startLineMaxSize) (t : Bytes) :
    p.readStartLine (formatStartLine m ++ t) =
      (.done, { p with state := .readingHeader (begun m) }, t) := by
  obtain ⟨a, b, c, hline, ha, hb, hunbroken, hparse⟩ := formatStartLine_parts hstart hversion
  have hsplit := split_three (c := c) ha hb
  rw [hline] at hle ⊢
  generalize hl : a ++ bytes " " ++ (b ++ bytes " " ++ c) = line at hle hunbroken
  have hl' : a ++ [32] ++ (b ++ [32] ++ c) = line := hl
  rw [hl'] at hsplit
  rw [List.length_append, length_crlf] at hle
  have hfind : find (line ++ crlf ++ t) crlf = some line.length :=
    StringUtil.find_eq_some.mpr ⟨by decide, line, t, hunbroken.dropInfix? t, rfl⟩
  have hblank : bytes " " = [32] := rfl
  rw [readStartLine_line hfind (by omega)
    (by rw [List.append_assoc, List.take_left, hblank, hsplit, hparse]), List.drop_left' (by simp)]

/-! ## Headers -/

theorem lineStart_of_plain {l : StartLine} (h : PlainStart l) : LineStart l := by
  cases l with
  | request method uri =>
    obtain ⟨hmethod, h32, h13, -, h0⟩ := h
    exact ⟨hmethod, h32, unbroken_of_not_mem h13, h0⟩
  | response code reason =>
    obtain ⟨hpos, hlt, h13, -, h0⟩ := h
    exact ⟨hpos, hlt, unbroken_of_not_mem h13, h0⟩

theorem not_mem_headerLine {c : UInt8} (h₁ : c ∉ h.1) (h₂ : c ∉ h.2) (hc : c ∉ bytes ": ") :
    c ∉ headerLine h := by
  simp only [headerLine, List.mem_append, h₁, h₂, hc, or_self, not_false_eq_true]

theorem lineHeader_of_plain (h₁ : Plain h.1) (h₂ : Plain h.2) : LineHeader h :=
  ⟨unbroken_of_not_mem (not_mem_headerLine h₁.1 h₂.1 (by decide)), h₁.2.2, h₂.2.2⟩

theorem headerLine_ne_nil (h : Bytes × Bytes) : headerLine h ≠ [] := by
  simp [headerLine, bytes]

theorem formatHeader_eq (hh : LineHeader h) : formatHeader h = headerLine h ++ crlf := by
  rw [formatHeader, cstr_eq hh.name_nul, cstr_eq hh.value_nul, headerLine]

/-- What is before the first colon of a header's line. -/
theorem headerLine_cut (h : Bytes × Bytes) :
    ∃ t, headerLine h = h.1.takeWhile (· ≠ 58) ++ [58] ++ t ∧ (58 : UInt8) ∉ h.1.takeWhile (· ≠ 58) := by
  have hnot : (58 : UInt8) ∉ h.1.takeWhile (· ≠ 58) := fun hmem => by
    simpa using List.mem_takeWhile_imp hmem
  have hcut := List.takeWhile_append_dropWhile (p := fun c : UInt8 => decide (c ≠ 58)) (l := h.1)
  cases hdrop : h.1.dropWhile (· ≠ 58) with
  | nil =>
    rw [hdrop, List.append_nil] at hcut
    refine ⟨32 :: h.2, ?_, hnot⟩
    rw [hcut]
    simp [headerLine, bytes]
  | cons c t =>
    have hc : c = 58 := by
      have hhead := List.head?_dropWhile_not (fun c : UInt8 => decide (c ≠ 58)) h.1
      rw [hdrop] at hhead
      simpa using hhead
    rw [hdrop, hc] at hcut
    refine ⟨t ++ bytes ": " ++ h.2, ?_, hnot⟩
    rw [headerLine]
    conv_lhs => rw [← hcut]
    simp only [List.append_assoc, List.cons_append, List.nil_append]

/-- The line of a header is read. -/
theorem setHeaderLine_headerLine (hh : LineHeader h) (m : HttpMessage) :
    setHeaderLine m (headerLine h) = some (m.setHeader (field h).1 (field h).2) := by
  obtain ⟨t, hline, hcolon⟩ := headerLine_cut h
  have hfind : find (headerLine h) (bytes ":") = some (h.1.takeWhile (· ≠ 58)).length := by
    rw [hline]
    exact StringUtil.find_eq_some.mpr
      ⟨by decide, _, _, FirstInfix.append_self hcolon _, rfl⟩
  have htake : (headerLine h).take (h.1.takeWhile (· ≠ 58)).length = h.1.takeWhile (· ≠ 58) := by
    rw [hline, List.append_assoc, List.take_left]
  have hnul : (0 : UInt8) ∉ (headerLine h).drop ((h.1.takeWhile (· ≠ 58)).length + 1) := fun hmem =>
    not_mem_headerLine hh.name_nul hh.value_nul (by decide) (List.mem_of_mem_drop hmem)
  unfold setHeaderLine field fieldName
  rw [hfind, Option.map_some, htake, cstr_eq hnul]

theorem foldlM_headerLines {hs : List (Bytes × Bytes)} (hh : ∀ h ∈ hs, LineHeader h)
    (m : HttpMessage) :
    (hs.map headerLine).foldlM setHeaderLine m = some (m.setHeaders (hs.map field)) := by
  induction hs generalizing m with
  | nil => rfl
  | cons h hs ih =>
    rw [List.map_cons, List.foldlM_cons, setHeaderLine_headerLine (hh h (.head _))]
    exact ih (fun h' hmem => hh h' (.tail _ hmem)) _

/-- A header without a colon in its name and blanks around its name and value is read as it was. -/
theorem field_eq_self (hcolon : (58 : UInt8) ∉ h.1) (hkey : Trimmed h.1) (hvalue : Trimmed h.2) :
    field h = h := by
  have hname : h.1.takeWhile (· ≠ 58) = h.1 := by
    refine List.takeWhile_eq_self_iff.mpr fun c hc => ?_
    simp only [ne_eq, decide_not, Bool.not_eq_true', decide_eq_false_iff_not]
    rintro rfl
    exact hcolon hc
  have hdrop : (headerLine h).drop (h.1.length + 1) = 32 :: h.2 := by
    have hline : headerLine h = h.1 ++ [58] ++ (32 :: h.2) := by
      simp [headerLine, bytes]
    rw [hline, List.drop_left' (by simp)]
  unfold field fieldName
  rw [hname, hdrop, trim_eq hkey, trim_blank hvalue]

theorem field_eq (hh : PlainHeader h) : field h = h :=
  field_eq_self hh.name_colon hh.name_trimmed hh.value_trimmed

theorem lineHeader_of_plainHeader (hh : PlainHeader h) : LineHeader h :=
  lineHeader_of_plain hh.name_plain hh.value_plain

theorem reread_eq {headers : HeaderMap} (hh : ∀ h ∈ headers.entries, field h = h) :
    reread headers = headers := by
  have hsame : headers.entries.map field = headers.entries :=
    (List.map_congr_left hh).trans (List.map_id _)
  rw [reread, hsame, SortedMap.insertAll_entries]

theorem flatMap_formatHeader {hs : List (Bytes × Bytes)} (hne : hs ≠ [])
    (hh : ∀ h ∈ hs, LineHeader h) :
    hs.flatMap formatHeader = joinLines (hs.map headerLine) ++ crlf := by
  have hlines : hs.flatMap formatHeader = hs.flatMap fun h => headerLine h ++ crlf :=
    List.flatMap_congr fun h hmem => formatHeader_eq (hh h hmem)
  rw [hlines, ← flatMap_crlf (by simpa using hne), List.flatMap_map]

theorem readHeader_format {hs : List (Bytes × Bytes)} (hne : hs ≠ [])
    (hh : ∀ h ∈ hs, LineHeader h) (hle : (hs.flatMap formatHeader).length + 2 ≤ p.headerMaxSize)
    (m : HttpMessage) (t : Bytes) :
    p.readHeader false m (hs.flatMap formatHeader ++ crlf ++ t) =
      (.done, { p with state := .readingBody (m.setHeaders (hs.map field)) }, t) := by
  have hlines : ∀ l ∈ hs.map headerLine, l ≠ [] ∧ Unbroken l := by
    intro l hl
    obtain ⟨h, hmem, rfl⟩ := List.mem_map.mp hl
    exact ⟨headerLine_ne_nil h, (hh h hmem).unbroken⟩
  have hne' : hs.map headerLine ≠ [] := by simpa using hne
  have hfirst := dropInfix?_joinLines hne' hlines t
  have hsplit := split_joinLines hne' fun l hl => (hlines l hl).2
  have hfold := foldlM_headerLines hh m
  have hstart := take_joinLines_ne hne' hlines t
  rw [flatMap_formatHeader hne hh] at hle ⊢
  rw [List.length_append, length_crlf] at hle
  have happ : joinLines (hs.map headerLine) ++ crlf ++ crlf ++ t =
      joinLines (hs.map headerLine) ++ (crlf ++ crlf) ++ t := by
    simp only [List.append_assoc]
  rw [happ]
  generalize joinLines (hs.map headerLine) = block at *
  have hfind : find (block ++ (crlf ++ crlf) ++ t) (crlf ++ crlf) = some block.length :=
    StringUtil.find_eq_some.mpr ⟨by decide, block, t, hfirst, rfl⟩
  rw [readHeader_block false (by simp; omega) hstart hfind (by omega)
    (by rw [List.append_assoc, List.take_left, hsplit, hfold]), List.drop_left' (by simp)]
  rfl

/-! ## A message -/

theorem getHeader_contentLength (hlen : m.headers.find (bytes "Content-Length") =
    some (StringUtil.toString m.body.length)) :
    m.hasHeader (bytes "Content-Length") = true ∧
      m.getHeader (bytes "Content-Length") = StringUtil.toString m.body.length := by
  unfold hasHeader getHeader
  rw [hlen]
  exact ⟨rfl, rfl⟩

theorem legible_of_wellFormed (hm : WellFormed m) : Legible m where
  start := lineStart_of_plain hm.start
  version := hm.version
  headers h hmem := ⟨lineHeader_of_plainHeader (hm.headers h hmem), field_eq (hm.headers h hmem)⟩
  contentLength := hm.contentLength
  body := hm.body

theorem readBody_wire (hm : Legible m) (hle : m.body.length ≤ p.bodyMaxSize) (t : Bytes) :
    p.readBody { m with body := [] } (m.body ++ t) = (.done, { p with state := .finished m }, t) := by
  obtain ⟨hhas, hget⟩ : ({ m with body := [] } : HttpMessage).hasHeader (bytes "Content-Length") =
      true ∧ ({ m with body := [] } : HttpMessage).getHeader (bytes "Content-Length") =
        StringUtil.toString m.body.length := getHeader_contentLength hm.contentLength
  unfold readBody
  rw [if_pos hhas, hget, atoi_toString hm.body]
  dsimp only
  rw [Int.toNat_natCast]
  by_cases hpos : (0 : Int) < m.body.length
  · rw [if_pos hpos, if_neg (by omega), if_neg (by simp), List.take_left, List.drop_left]
    rfl
  · have hnil : m.body = [] := List.length_eq_zero_iff.mp (by omega)
    rw [if_neg hpos, if_pos (by omega), hnil]
    cases m
    cases hnil
    rfl

/-- The message once its headers are read. -/
def headed (m : HttpMessage) : HttpMessage := ⟨m.startLine, m.version, reread m.headers, []⟩

theorem headed_eq (hheaders : ∀ h ∈ m.headers.entries, field h = h) :
    headed m = { m with body := [] } := by
  rw [headed, reread_eq hheaders]

/-- The start line and the headers, up to a body that is not chunked. -/
theorem steps_headers (hstart : LineStart m.startLine) (hversion : m.version ≠ .unknown)
    (hne : m.headers.entries ≠ []) (hheaders : ∀ h ∈ m.headers.entries, LineHeader h)
    (hin : Within p m) (t : Bytes) :
    Steps guardedStep p.reset
      (formatStartLine m ++ m.headers.entries.flatMap formatHeader ++ crlf ++ t)
      (opened { p.reset with state := .readingBody (headed m) }) t [] := by
  have hline := readStartLine_format (p := p.reset) hstart hversion hin.start
    (m.headers.entries.flatMap formatHeader ++ crlf ++ t)
  have hblock := readHeader_format (p := { p.reset with state := .readingHeader (begun m) })
    hne hheaders hin.headers (begun m) t
  have happ : formatStartLine m ++ m.headers.entries.flatMap formatHeader ++ crlf ++ t =
      formatStartLine m ++ (m.headers.entries.flatMap formatHeader ++ crlf ++ t) := by
    simp only [List.append_assoc]
  have h₁ : guardedStep p.reset
      (formatStartLine m ++ (m.headers.entries.flatMap formatHeader ++ crlf ++ t)) =
      .next { p.reset with state := .readingHeader (begun m) }
        (m.headers.entries.flatMap formatHeader ++ crlf ++ t) [] := by
    show ofHandled _ (p.reset.readStartLine _) = _
    rw [hline]
    rfl
  have h₂ : guardedStep { p.reset with state := .readingHeader (begun m) }
      (m.headers.entries.flatMap formatHeader ++ crlf ++ t) =
      .next (opened { p.reset with state := .readingBody (headed m) }) t [] := by
    show ofHandled _ (readHeader _ false (begun m) _) = _
    rw [hblock]
    rfl
  rw [happ]
  exact .next h₁ (.one h₂)

theorem opened_sized {message : HttpMessage} (hchunked : isChunked message = false) :
    opened { p with state := .readingBody message } = { p with state := .readingBody message } :=
  if_neg (by simp [hchunked])

/-- What a body that is not chunked is to the reader. -/
theorem guardedStep_body {message : HttpMessage} (hchunked : isChunked message = false)
    (t : Bytes) : guardedStep { p.reset with state := .readingBody message } t =
      ofHandled { p.reset with state := .readingBody message }
        (readBody { p.reset with state := .readingBody message } message t) := by
  have hover : overLimit { p.reset with state := .readingBody message } t = false := by
    simp [overLimit, hchunked]
  rw [guardedStep_eq hover]
  show (if isChunked message then _ else ofHandled _ _) = _
  rw [if_neg (by simp [hchunked])]

/-- The bytes of a message are read as that message. -/
theorem steps_wire (hm : Legible m) (hin : Within p m) (t : Bytes) :
    Steps guardedStep p.reset (wire m ++ t) p.reset t [m] := by
  have hne : m.headers.entries ≠ [] := by
    intro hnil
    have := hm.contentLength
    rw [SortedMap.find, hnil] at this
    cases this
  have hchunked : isChunked { m with body := [] } = false := by
    have hhas : ({ m with body := [] } : HttpMessage).hasHeader (bytes "Content-Length") = true :=
      (getHeader_contentLength hm.contentLength).1
    simp [isChunked, hhas]
  have hsteps := steps_headers hm.start hm.version hne (fun h hmem => (hm.headers h hmem).1) hin
    (m.body ++ t)
  rw [headed_eq fun h hmem => (hm.headers h hmem).2, opened_sized hchunked] at hsteps
  have hbody := readBody_wire (p := { p.reset with state := .readingBody { m with body := [] } })
    hm hin.body t
  have happ : wire m ++ t = formatStartLine m ++ m.headers.entries.flatMap formatHeader ++ crlf ++
      (m.body ++ t) := by
    simp only [wire, List.append_assoc]
  have hlast : guardedStep { p.reset with state := .readingBody { m with body := [] } }
      (m.body ++ t) = .next p.reset t [m] := by
    rw [guardedStep_body hchunked, hbody]
    rfl
  rw [happ]
  exact hsteps.trans (.one hlast)

/-- The bytes of messages are read as those messages. -/
theorem runs_wires {ms : List HttpMessage} (hms : ∀ m ∈ ms, WellFormed m ∧ Within p m) :
    Steps guardedStep p.reset (ms.flatMap wire) p.reset [] ms := by
  induction ms with
  | nil => exact .refl
  | cons m ms ih =>
    obtain ⟨hm, hin⟩ := hms m (.head _)
    exact (steps_wire (legible_of_wellFormed hm) hin _).trans (ih fun m' hm' => hms m' (.tail _ hm'))

/-! ## A request without a body -/

/-- A request with headers that say nothing of a body. -/
structure HeaderOnly (m : HttpMessage) : Prop where
  request : ∃ method requestUri, m.startLine = .request method requestUri
  start : PlainStart m.startLine
  version : m.version ≠ .unknown
  headers : ∀ h ∈ m.headers.entries, PlainHeader h
  headers_ne : m.headers.entries ≠ []
  no_contentLength : m.headers.find (bytes "Content-Length") = none
  no_transferEncoding : m.headers.find (bytes "Transfer-Encoding") = none
  body : m.body = []

/-- `readBody` takes it for an error that no header says how long the body is. Every
request without a body fails, whatever follows it and however it is cut. -/
theorem outcome_headerOnly (hm : HeaderOnly m) (hin : Within p m) (more : Bytes)
    {pieces : List Bytes} (hpieces : pieces.flatten = wire m ++ more) :
    outcome p.reset pieces = ([], true) := by
  have hhas : hasHeader { m with body := [] } (bytes "Content-Length") = false := by
    unfold hasHeader
    rw [hm.no_contentLength]
    rfl
  have hcontain : headerContain { m with body := [] } (bytes "Transfer-Encoding")
      (bytes "chunked") = false := by
    unfold headerContain getHeader
    rw [hm.no_transferEncoding]
    decide
  have hchunked : isChunked { m with body := [] } = false := by
    rw [isChunked, hcontain, Bool.and_false]
  have hsteps := steps_headers (lineStart_of_plain hm.start) hm.version hm.headers_ne
    (fun h hmem => lineHeader_of_plainHeader (hm.headers h hmem)) hin (m.body ++ more)
  rw [headed_eq fun h hmem => field_eq (hm.headers h hmem), opened_sized hchunked] at hsteps
  have hfail : guardedStep { p.reset with state := .readingBody { m with body := [] } }
      (m.body ++ more) =
      .halt .malformed { p.reset with state := .readingBody { m with body := [] } } [] := by
    rw [guardedStep_body hchunked]
    unfold readBody
    simp only [hhas, hcontain, Bool.false_eq_true, if_false]
    rfl
  have happ : wire m ++ more = formatStartLine m ++ m.headers.entries.flatMap formatHeader ++ crlf ++
      (m.body ++ more) := by
    simp only [wire, List.append_assoc]
  rw [happ] at hpieces
  obtain ⟨messages, r, hfeeds, hout⟩ := outcome_feeds p pieces
  obtain ⟨rfl, rfl⟩ := hfeeds.guarded_runs step_stable trivial overLimit_mono
    (hsteps.runs (.halt hfail)) (by simp) hpieces
  exact hout

/-- A request as `http_client.cc` makes it. -/
def getRequest : HttpMessage where
  startLine := .request .get (bytes "/")
  version := .http11
  headers :=
    ⟨[(bytes "Connection", bytes "keep-alive"), (bytes "Host", bytes "127.0.0.1:80")], by decide⟩
  body := []

/-- The request of `http_client.cc` is not received. -/
theorem getRequest_fails : wire getRequest =
      bytes "GET / HTTP/1.1\r\nConnection: keep-alive\r\nHost: 127.0.0.1:80\r\n\r\n" ∧
    (outcome construct [wire getRequest]).1.length = 0 ∧
      (outcome construct [wire getRequest]).2 = true := by
  decide

/-- It is not received in two pieces either, with another request behind it. -/
theorem outcome_headerOnly_getRequest :
    outcome construct.reset [wire getRequest, wire getRequest] = ([], true) := by
  refine outcome_headerOnly (m := getRequest)
    ⟨⟨_, _, rfl⟩, ⟨by decide, by decide, by decide, by decide, by decide⟩, by decide, ?_, by decide,
      by decide, by decide, rfl⟩ ⟨by decide, by decide, by decide⟩ (wire getRequest) (by simp)
  intro h hmem
  cases hmem with
  | head =>
    exact ⟨by decide, by decide, by decide, ⟨by decide, by decide, by decide⟩,
      by decide, ⟨by decide, by decide, by decide⟩⟩
  | tail _ hmem =>
    cases List.mem_singleton.mp hmem
    exact ⟨by decide, by decide, by decide, ⟨by decide, by decide, by decide⟩,
      by decide, ⟨by decide, by decide, by decide⟩⟩

end HttpProtocol

end Brickred
