import Brickred.Buffer.Growth
import Brickred.Protocol.HttpRoundTrip

/-!
# `HttpProtocol::writeMessage` into any buffer

The lines of a message are printed one after another, each into room that was reserved for
it, but for the empty line at the end: its `snprintf` needs one byte more than is reserved,
and lives on what the lines before it have left. A writer that stops at a line which does
not fit shows that none is cut.
-/

namespace Brickred

namespace HttpMessage

/-- No string of the message holds a NUL. -/
structure NulFree (m : HttpMessage) : Prop where
  start : match m.startLine with
    | .request _ requestUri => (0 : UInt8) ∉ requestUri
    | .response _ reasonPhrase => (0 : UInt8) ∉ reasonPhrase
  headers : ∀ h ∈ m.headers.entries, (0 : UInt8) ∉ h.1 ∧ (0 : UInt8) ∉ h.2

/-- The start line and its line end. -/
def startLineText (m : HttpMessage) : Bytes :=
  match m.startLine with
  | .request method requestUri =>
    methodEnumToStr method ++ bytes " " ++ requestUri ++ bytes " " ++
      versionEnumToStr m.version ++ crlf
  | .response statusCode reasonPhrase =>
    versionEnumToStr m.version ++ bytes " " ++ StringUtil.toStringInt statusCode ++ bytes " " ++
      reasonPhrase ++ crlf

/-- A header as `name: value` and its line end. -/
def headerText (h : Bytes × Bytes) : Bytes := h.1 ++ bytes ": " ++ h.2 ++ crlf

/-- The wire form: the start line, the headers in the order of the map, an empty line and the
body. -/
def wireForm (m : HttpMessage) : Bytes :=
  m.startLineText ++ m.headers.entries.flatMap headerText ++ crlf ++ m.body

end HttpMessage

namespace HttpProtocol

open HttpMessage

/-! ## The lines -/

/-- The lines that are printed, each with the room that is reserved for it. -/
def lines (m : HttpMessage) : List (Nat × Bytes) :=
  (startLineReserve m, formatStartLine m) ::
    m.headers.entries.map fun h => (32 + h.1.length + h.2.length, formatHeader h)

/-- Reserve room and print. -/
def printLine (print : Bytes → DynamicBuffer → Option DynamicBuffer) (buffer : DynamicBuffer)
    (line : Nat × Bytes) : Option DynamicBuffer := do
  print line.2 (← buffer.reserveWritableBytes line.1)

/-- `writeMessage` with another `snprintf`. -/
def writeMessageBy (print : Bytes → DynamicBuffer → Option DynamicBuffer) (m : HttpMessage)
    (buffer : DynamicBuffer) : Option DynamicBuffer := do
  let buffer ← (lines m).foldlM (printLine print) buffer
  let buffer ← printLine print buffer (2, crlf)
  buffer.fill m.body.length m.body

theorem writeMessageBy_print (m : HttpMessage) (buffer : DynamicBuffer) :
    writeMessageBy print m buffer = writeMessage m buffer := by
  unfold writeMessageBy writeMessage lines
  simp only [List.foldlM_cons, List.foldlM_map, printLine, Option.bind_eq_bind,
    Option.bind_assoc]

/-- A `snprintf` that is undefined where the space would cut the text. -/
def printUncut (text : Bytes) (buffer : DynamicBuffer) : Option DynamicBuffer :=
  if text.length < buffer.writableBytes then print text buffer else none

/-- The requests for room of a message, with what is committed of each. -/
def requests (m : HttpMessage) : List (Nat × Nat) :=
  (lines m).map (fun line => (line.1, line.2.length)) ++ [(2, 2), (m.body.length, m.body.length)]

/-- The capacity of the buffer once the message is written. -/
def capacityFor (b : DynamicBuffer) (m : HttpMessage) : Nat :=
  DynamicBuffer.capacityAfter b.expandSize b.capacity b.readableBytes (requests m)

variable {b : DynamicBuffer} {m : HttpMessage}

theorem printUncut_spec {text : Bytes} (hroom : text.length < b.writableBytes)
    (hint : text.length < 2 ^ 31) :
    ∃ b', printUncut text b = some b' ∧ print text b = some b' ∧
      b'.readable = b.readable ++ text ∧ b.writableBytes ≤ b'.writableBytes + text.length ∧
      b'.capacity = b.capacity ∧ b'.expandSize = b.expandSize := by
  obtain ⟨b', e, hread, hleft, hexpand⟩ := print_spec text hroom
  have hcapacity : b'.capacity = b.capacity := by
    unfold print at e
    rw [if_neg (by omega)] at e
    obtain ⟨b₁, hcopy, e⟩ := Option.bind_eq_some_iff.mp e
    obtain rfl := Option.some.inj e
    exact DynamicBuffer.capacity_copyIn_write hcopy
  rw [printed, if_pos hint] at hread
  exact ⟨b', by rw [printUncut, if_pos hroom, e], e, hread, hleft, hcapacity, hexpand⟩

/-- One line, in the room reserved for it. -/
theorem printLine_spec {line : Nat × Bytes} (hlen : line.2.length + 3 ≤ line.1)
    (hint : line.2.length < 2 ^ 31)
    (hcap : DynamicBuffer.grownTo b.expandSize b.capacity (b.readableBytes + line.1) < 2 ^ 63) :
    ∃ b', printLine printUncut b line = some b' ∧ printLine print b line = some b' ∧
      b'.readable = b.readable ++ line.2 ∧ 3 ≤ b'.writableBytes ∧
      b'.capacity = DynamicBuffer.grownTo b.expandSize b.capacity (b.readableBytes + line.1) ∧
      b'.expandSize = b.expandSize := by
  obtain ⟨b₁, e₁, hread₁, hroom, hcapacity₁, hexpand₁⟩ :=
    DynamicBuffer.reserveWritableBytes_grownTo hcap
  obtain ⟨b₂, e₂, e₂', hread₂, hleft, hcapacity₂, hexpand₂⟩ := printUncut_spec (b := b₁)
    (by omega) hint
  refine ⟨b₂, ?_, ?_, by rw [hread₂, hread₁], by omega, hcapacity₂.trans hcapacity₁,
    hexpand₂.trans hexpand₁⟩
  · exact Option.bind_eq_some_iff.mpr ⟨b₁, e₁, e₂⟩
  · exact Option.bind_eq_some_iff.mpr ⟨b₁, e₁, e₂'⟩

/-- All lines, one after another. -/
theorem printLines_spec (ls : List (Nat × Bytes))
    (hlen : ∀ line ∈ ls, line.2.length + 3 ≤ line.1 ∧ line.2.length < 2 ^ 31)
    (hcap : DynamicBuffer.capacityAfter b.expandSize b.capacity b.readableBytes
      (ls.map fun line => (line.1, line.2.length)) < 2 ^ 63) :
    ∃ b', ls.foldlM (printLine printUncut) b = some b' ∧ ls.foldlM (printLine print) b = some b' ∧
      b'.readable = b.readable ++ ls.flatMap Prod.snd ∧
      (ls ≠ [] → 3 ≤ b'.writableBytes) ∧
      b'.capacity = DynamicBuffer.capacityAfter b.expandSize b.capacity b.readableBytes
        (ls.map fun line => (line.1, line.2.length)) ∧ b'.expandSize = b.expandSize := by
  induction ls generalizing b with
  | nil => exact ⟨b, rfl, rfl, (List.append_nil _).symm, fun h => absurd rfl h, rfl, rfl⟩
  | cons line ls ih =>
    obtain ⟨⟨hline, hint⟩, hrest⟩ := List.forall_mem_cons.mp hlen
    rw [List.map_cons, DynamicBuffer.capacityAfter] at hcap
    obtain ⟨b₁, e₁, e₁', hread₁, hleft₁, hcapacity₁, hexpand₁⟩ := printLine_spec (b := b) hline hint
      ((DynamicBuffer.le_capacityAfter _ _ _ _).trans_lt hcap)
    have hused : b₁.readableBytes = b.readableBytes + line.2.length := by
      rw [← DynamicBuffer.length_readable, hread₁, List.length_append,
        DynamicBuffer.length_readable]
    have hsame : DynamicBuffer.capacityAfter b₁.expandSize b₁.capacity b₁.readableBytes
        (ls.map fun line => (line.1, line.2.length)) =
        DynamicBuffer.capacityAfter b.expandSize b.capacity b.readableBytes
          ((line :: ls).map fun line => (line.1, line.2.length)) := by
      rw [hexpand₁, hcapacity₁, hused]
      rfl
    obtain ⟨b₂, e₂, e₂', hread₂, hleft₂, hcapacity₂, hexpand₂⟩ := ih (b := b₁) hrest
      (hsame.trans_lt hcap)
    refine ⟨b₂, ?_, ?_, ?_, fun _ => ?_, hcapacity₂.trans hsame, hexpand₂.trans hexpand₁⟩
    · rw [List.foldlM_cons]
      exact Option.bind_eq_some_iff.mpr ⟨b₁, e₁, e₂⟩
    · rw [List.foldlM_cons]
      exact Option.bind_eq_some_iff.mpr ⟨b₁, e₁', e₂'⟩
    · rw [hread₂, hread₁, List.flatMap_cons, List.append_assoc]
    · by_cases hnil : ls = []
      · subst hnil
        obtain rfl := Option.some.inj e₂
        exact hleft₁
      · exact hleft₂ hnil

/-- The lines of a message that holds no NUL are its wire form up to the empty line. -/
theorem flatMap_lines (h : m.NulFree) :
    (lines m).flatMap Prod.snd = m.startLineText ++ m.headers.entries.flatMap headerText := by
  have hstart : formatStartLine m = m.startLineText := by
    have hnul := h.start
    unfold formatStartLine startLineText
    cases hm : m.startLine with
    | request method uri =>
      rw [hm] at hnul
      simp only [cstr_eq hnul]
    | response code reason =>
      rw [hm] at hnul
      simp only [cstr_eq hnul]
  have hheader : ∀ hs : List (Bytes × Bytes), (∀ h ∈ hs, (0 : UInt8) ∉ h.1 ∧ (0 : UInt8) ∉ h.2) →
      (hs.map fun h => (32 + h.1.length + h.2.length, formatHeader h)).flatMap Prod.snd =
        hs.flatMap headerText := by
    intro hs
    induction hs with
    | nil => exact fun _ => rfl
    | cons header hs ih =>
      intro hall
      obtain ⟨⟨hname, hvalue⟩, hrest⟩ := List.forall_mem_cons.mp hall
      rw [List.map_cons, List.flatMap_cons, List.flatMap_cons, ih hrest]
      simp only [formatHeader, headerText, cstr_eq hname, cstr_eq hvalue]
  rw [lines, List.flatMap_cons, hheader _ h.headers, hstart]

/-- `snprintf` can count every line: the string of the start line is shorter than `2 ^ 30`
bytes, and the two of a header are shorter than `2 ^ 31` with their punctuation. -/
structure Countable (m : HttpMessage) : Prop where
  start : match m.startLine with
    | .request _ requestUri => requestUri.length < 2 ^ 30
    | .response _ reasonPhrase => reasonPhrase.length < 2 ^ 30
  headers : ∀ h ∈ m.headers.entries, h.1.length + h.2.length + 4 < 2 ^ 31

theorem lines_fit (hint : IntStatus m.startLine) (h : Countable m) :
    ∀ line ∈ lines m, line.2.length + 3 ≤ line.1 ∧ line.2.length < 2 ^ 31 := by
  refine List.forall_mem_cons.mpr ⟨⟨length_formatStartLine hint, ?_⟩, fun line hline => ?_⟩
  · have hlen := length_formatStartLine hint
    have hshort := h.start
    unfold startLineReserve at hlen
    cases hm : m.startLine with
    | request method uri =>
      rw [hm] at hlen hshort
      dsimp only at hlen hshort ⊢
      omega
    | response code reason =>
      rw [hm] at hlen hshort
      dsimp only at hlen hshort ⊢
      omega
  · obtain ⟨header, hmem, rfl⟩ := List.mem_map.mp hline
    have hshort := h.headers header hmem
    have hname := length_cstr_le header.1
    have hvalue := length_cstr_le header.2
    refine ⟨length_formatHeader header, ?_⟩
    have hcolon : (bytes ": ").length = 2 := rfl
    unfold formatHeader
    simp only [List.length_append, length_crlf]
    omega

theorem sum_length_eq (ls : List (Nat × Bytes)) :
    ((ls.map fun line => (line.1, line.2.length)).map Prod.snd).sum =
      (ls.flatMap Prod.snd).length := by
  induction ls with
  | nil => rfl
  | cons line ls ih =>
    rw [List.map_cons, List.map_cons, List.sum_cons, ih, List.flatMap_cons, List.length_append]

/-- `writeMessage` appends the wire form to what is readable, for every message without a NUL
whose lines `snprintf` can count, and every buffer that finds the storage it grows to. No
line is cut by the space there is. -/
theorem writeMessage_appends (h : m.NulFree) (hint : IntStatus m.startLine) (hlines : Countable m)
    (hcap : capacityFor b m < 2 ^ 63) :
    ∃ b', writeMessageBy printUncut m b = some b' ∧ writeMessage m b = some b' ∧
      b'.readable = b.readable ++ m.wireForm := by
  unfold capacityFor requests at hcap
  rw [DynamicBuffer.capacityAfter_append, sum_length_eq] at hcap
  obtain ⟨b₁, e₁, e₁', hread₁, hleft₁, hcapacity₁, hexpand₁⟩ := printLines_spec (b := b) (lines m)
    (lines_fit hint hlines) ((DynamicBuffer.le_capacityAfter _ _ _ _).trans_lt hcap)
  have hused₁ : b₁.readableBytes = b.readableBytes + ((lines m).flatMap Prod.snd).length := by
    rw [← DynamicBuffer.length_readable, hread₁, List.length_append, DynamicBuffer.length_readable]
  rw [← hcapacity₁, ← hused₁, ← hexpand₁] at hcap
  have hleft : 3 ≤ b₁.writableBytes := hleft₁ (List.cons_ne_nil _ _)
  -- the room that is left holds the empty line
  have hroom := b₁.readableBytes_add_writableBytes_le
  have hreserve : b₁.reserveWritableBytes 2 = some b₁ := if_pos (by omega)
  obtain ⟨b₂, e₂, e₂', hread₂, -, hcapacity₂, hexpand₂⟩ := printUncut_spec (b := b₁)
    (show crlf.length < b₁.writableBytes from hleft) (by decide)
  have hused₂ : b₂.readableBytes = b₁.readableBytes + 2 := by
    rw [← DynamicBuffer.length_readable, hread₂, List.length_append, DynamicBuffer.length_readable,
      length_crlf]
  rw [DynamicBuffer.capacityAfter, DynamicBuffer.grownTo, if_pos (by omega),
    DynamicBuffer.capacityAfter, ← hused₂, ← hcapacity₂, ← hexpand₂] at hcap
  obtain ⟨b₃, e₃, hread₃, hroom₃, -⟩ := DynamicBuffer.reserveWritableBytes_grownTo hcap
  obtain ⟨b₄, e₄, hread₄⟩ := @DynamicBuffer.copyIn_write b₃ m.body hroom₃
  have hfill : b₂.fill m.body.length m.body = some (b₄.write m.body.length) :=
    Option.bind_eq_some_iff.mpr ⟨b₃, e₃, Option.bind_eq_some_iff.mpr ⟨b₄, e₄, rfl⟩⟩
  have hempty : ∀ print, print crlf b₁ = some b₂ → printLine print b₁ (2, crlf) = some b₂ :=
    fun print e => Option.bind_eq_some_iff.mpr ⟨b₁, hreserve, e⟩
  refine ⟨b₄.write m.body.length, ?_, ?_, ?_⟩
  · exact Option.bind_eq_some_iff.mpr ⟨b₁, e₁, Option.bind_eq_some_iff.mpr
      ⟨b₂, hempty printUncut e₂, hfill⟩⟩
  · rw [← writeMessageBy_print]
    exact Option.bind_eq_some_iff.mpr ⟨b₁, e₁', Option.bind_eq_some_iff.mpr
      ⟨b₂, hempty print e₂', hfill⟩⟩
  · rw [hread₄, hread₃, hread₂, hread₁, flatMap_lines h, HttpMessage.wireForm]
    simp only [List.append_assoc]

/-- A response with a negative status code and two headers. -/
def oddResponse : HttpMessage :=
  HttpMessage.setHeaders ⟨.response (-5) [120], .unknown, .empty, [7]⟩
    [(bytes "Server", bytes "brickred"), (bytes "Content-Length", bytes "1")]

/-- It is written into a buffer of one byte. -/
theorem writeMessage_appends_headers :
    ∃ b b', DynamicBuffer.construct 1 1 = some b ∧ writeMessage oddResponse b = some b' ∧
      b'.readable = b.readable ++ oddResponse.wireForm := by
  have hreason : (0 : UInt8) ∉ ([120] : Bytes) ∧ ([120] : Bytes).length < 2 ^ 30 := by decide
  obtain ⟨b', -, e, hread⟩ := @writeMessage_appends
    ((DynamicBuffer.construct 1 1).get (by decide)) oddResponse
    ⟨hreason.1, by decide⟩ ⟨by decide, by decide⟩ ⟨hreason.2, by decide⟩ (by decide +kernel)
  exact ⟨_, b', (Option.some_get _).symm, e, hread⟩

/-- A header whose name and value have `2 ^ 30 - 1` bytes each is left out; and a buffer that
grows by `2 ^ 63` bytes does not find the storage for any message. -/
theorem not_writeMessage_appends :
    (∃ (b b' : DynamicBuffer) (m : HttpMessage), DynamicBuffer.construct 1024 1024 = some b ∧
      m.NulFree ∧ m.startLine = .request .get [47] ∧
      (∀ h ∈ m.headers.entries, h.1.length < 2 ^ 30 ∧ h.2.length < 2 ^ 30) ∧
      writeMessage m b = some b' ∧ b'.readable ≠ b.readable ++ m.wireForm) ∧
    ∃ b, DynamicBuffer.construct 1 (2 ^ 63) = some b ∧
      writeMessage ⟨.request .get [47], .http11, .empty, []⟩ b = none := by
  constructor
  · let header : Bytes × Bytes := (List.replicate (2 ^ 30 - 1) 97, List.replicate (2 ^ 30 - 1) 98)
    let m : HttpMessage := ⟨.request .get [47], .http11, SortedMap.empty.insert header.1 header.2, []⟩
    have hentries : m.headers.entries = [header] := rfl
    have hname : header.1.length = 2 ^ 30 - 1 := List.length_replicate
    have hvalue : header.2.length = 2 ^ 30 - 1 := List.length_replicate
    have hfree : m.NulFree := by
      refine ⟨by decide, fun h hh => ?_⟩
      rw [hentries] at hh
      obtain rfl := List.mem_singleton.mp hh
      exact ⟨fun h0 => absurd (List.eq_of_mem_replicate h0) (by decide),
        fun h0 => absurd (List.eq_of_mem_replicate h0) (by decide)⟩
    have hlong : (formatHeader header).length = 2 ^ 31 + 2 := by
      obtain ⟨h₁, h₂⟩ := hfree.headers header (by rw [hentries]; exact List.mem_singleton_self _)
      have hcolon : (bytes ": ").length = 2 := rfl
      unfold formatHeader
      simp only [cstr_eq h₁, cstr_eq h₂, List.length_append, length_crlf, hname, hvalue, hcolon]
      decide
    obtain ⟨b, hb⟩ : ∃ b, DynamicBuffer.construct 1024 1024 = some b :=
      ⟨_, (Option.some_get (by decide +kernel)).symm⟩
    have hnil := DynamicBuffer.readable_construct hb
    have hexpand := DynamicBuffer.expandSize_construct hb
    have hused : b.readableBytes = 0 := DynamicBuffer.readableBytes_eq_zero.mpr hnil
    have hreserved : reserved m = 65 + (32 + (2 ^ 30 - 1) + (2 ^ 30 - 1)) + 2 := by
      unfold reserved
      rw [hentries, List.map_singleton, List.sum_singleton, hname, hvalue]
      rfl
    obtain ⟨b', e, hread, -⟩ := writeMessage_spec (b := b) m trivial (by
      rw [hused, hreserved, hexpand]
      decide)
    refine ⟨b, b', m, hb, hfree, rfl, fun h hh => ?_, e, fun hsame => ?_⟩
    · rw [hentries] at hh
      obtain rfl := List.mem_singleton.mp hh
      rw [hname, hvalue]
      decide
    · rw [hread, hnil, List.nil_append, List.nil_append] at hsame
      have hlen := congrArg List.length hsame
      have hprinted : printed (formatHeader header) = [] := by
        rw [printed, hlong]
        decide
      have htext : (headerText header).length = 2 ^ 31 + 2 := by
        have hcolon : (bytes ": ").length = 2 := rfl
        unfold headerText
        simp only [List.length_append, length_crlf, hname, hvalue, hcolon]
        decide
      have hstart : (formatStartLine m).length = 16 := rfl
      have hle := length_printed_le (formatStartLine m)
      unfold written HttpMessage.wireForm at hlen
      rw [hentries] at hlen
      simp only [List.flatMap_cons, List.flatMap_nil, List.append_nil, List.length_append, hprinted,
        htext] at hlen
      omega
  · refine ⟨_, (Option.some_get (by decide)).symm, by decide +kernel⟩

end HttpProtocol

end Brickred
