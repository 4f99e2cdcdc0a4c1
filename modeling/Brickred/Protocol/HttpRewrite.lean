import Brickred.Protocol.HttpFields
import Brickred.Protocol.HttpPrinting

/-!
# Chunked messages that are written again

`readBody` gives a chunked message a `Content-Length` and takes its `Transfer-Encoding` away, so
that it can be written and read again. But it goes on with the fields of the trailer, and these
are set by the handler of ordinary header lines: what it has rewritten stays only if none of them
is one of the two.
-/

namespace Brickred

open Incremental
open StringUtil (find find_append find_eq_some split toLower trim)
open HttpMessage (LineStart LineHeader Legible begun field headerLine)

namespace HttpProtocol

/-! ## What is asked -/

/-- The message says the length of its body and no encoding, and what is written of it is read
as the same message by every reader within whose limits it is. -/
structure Rewritten (m : HttpMessage) : Prop where
  length : m.headers.find (bytes "Content-Length") = some (StringUtil.toString m.body.length)
  encoding : m.headers.find (bytes "Transfer-Encoding") = none
  reread : ∀ q : HttpProtocol, Within q m → ∀ pieces : List Bytes, pieces.flatten = written m →
    outcome q.reset pieces = ([m], false)

/-- The start line of a chunked message begins a message, and the chunks hold some data. -/
structure Sent (lim : Limits) (w : Parts) (m₀ : HttpMessage) (data : Bytes) : Prop where
  line : StartLineOf lim.startLine w.startLine m₀
  chunks : ∃ raw last, w.body = raw ++ (last ++ crlf) ∧ ChunksOf lim.body raw data ∧ HeadOf last 0

/-- The trailer leaves alone what has been rewritten, and all lines of the message are strings of
C that `snprintf` can print. -/
structure Survives (m₀ : HttpMessage) (header trailer : List (Bytes × Bytes)) (data : Bytes) :
    Prop where
  encoding : ∀ f ∈ trailer, toLower f.1 ≠ toLower (bytes "Transfer-Encoding")
  length : ∀ value ∈ lastField trailer (bytes "Content-Length"),
    value = StringUtil.toString data.length
  start : m₀.NulFree ∧ Printable m₀
  names : ∀ f ∈ header ++ trailer, (0 : UInt8) ∉ f.1
  lines : ∀ name value, toLower name ≠ toLower (bytes "Transfer-Encoding") →
    lastField (header ++ trailer) name = some value → name.length + value.length + 4 < 2 ^ 31
  data : data.length < 2 ^ 31

variable {lim : Limits} {p q : HttpProtocol} {m m₀ m₁ message : HttpMessage} {w : Parts}
  {a b c line block trailer body rest : Bytes} {f h : Bytes × Bytes} {max : Nat}
  {lines ls : List Bytes}

/-! ## Fields -/

/-- A name and a value as they are read. -/
def NameRead (name : Bytes) : Prop := (58 : UInt8) ∉ name ∧ Trimmed name ∧ Unbroken name

def ValueRead (value : Bytes) : Prop := (0 : UInt8) ∉ value ∧ Trimmed value ∧ Unbroken value

theorem fieldOf_read (hline : Unbroken line) (hf : fieldOf line = some f) :
    NameRead f.1 ∧ ValueRead f.2 := by
  obtain ⟨colon, hcolon, rfl⟩ := Option.map_eq_some_iff.mp hf
  obtain ⟨hne, name, value, hcut, rfl⟩ := find_eq_some.mp hcolon
  have htake : line.take name.length = name := by
    rw [FirstInfix.eq_append hcut, List.append_assoc, List.take_left]
  have hname : (58 : UInt8) ∉ name := fun hmem => by
    obtain ⟨n₁, n₂, rfl⟩ := List.append_of_mem hmem
    exact FirstInfix.not_infix hne hcut ⟨n₁, n₂, by simp [bytes]⟩
  have hin : trim name <:+: name := infix_trim name
  have hin' : trim (cstr (line.drop (name.length + 1))) <:+: cstr (line.drop (name.length + 1)) :=
    infix_trim _
  refine ⟨⟨?_, trimmed_trim _, ?_⟩, fun hmem => not_mem_cstr _ (hin'.subset hmem),
    trimmed_trim _, ?_⟩
  · rw [htake]
    exact fun hmem => hname (hin.subset hmem)
  · exact hline.of_infix ((infix_trim _).trans (List.take_prefix _ _).isInfix)
  · exact hline.of_infix (hin'.trans ((infix_cstr _).trans (List.drop_suffix _ _).isInfix))

theorem fieldsOf_read (hf : f ∈ fieldsOf block) : NameRead f.1 ∧ ValueRead f.2 := by
  obtain ⟨line, hline, hf⟩ := List.mem_filterMap.mp hf
  exact fieldOf_read (unbroken_of_mem_split hline) hf

/-! ## Start lines -/

/-- A start line as it is read. -/
def StartRead : StartLine → Prop
  | .request method requestUri => method ≠ .unknown ∧ (32 : UInt8) ∉ requestUri ∧ Unbroken requestUri
  | .response statusCode reasonPhrase =>
    0 < statusCode ∧ statusCode < 2 ^ 31 ∧ Unbroken reasonPhrase

theorem unbroken_of_find (hfind : find (line ++ crlf) crlf = some line.length) : Unbroken line := by
  obtain ⟨hne, p, s, hcut, hp⟩ := find_eq_some.mp hfind
  have hline := FirstInfix.eq_append hcut
  rw [List.append_assoc] at hline
  obtain ⟨rfl, -⟩ := List.append_inj hline hp.symm
  exact FirstInfix.not_infix hne hcut

/-- What the three parts of a start line are. -/
theorem parseStartLine_parts (hparse : parseStartLine [a, b, c] = some m) :
    m = begun m ∧ m.version ≠ .unknown ∧
      ((∃ method, method ≠ .unknown ∧ m.startLine = .request method b) ∨
        ∃ code : Int, 0 < code ∧ code < 2 ^ 31 ∧ m.startLine = .response code c) := by
  simp only [parseStartLine] at hparse
  split at hparse
  · split at hparse
    · cases hparse
    · rename_i hversion
      split at hparse
      · cases hparse
      · rename_i hcode
        cases hparse
        exact ⟨rfl, hversion, .inr ⟨_, by omega, atoi_lt b, rfl⟩⟩
  · split at hparse
    · cases hparse
    · rename_i hmethod
      split at hparse
      · cases hparse
      · rename_i hversion
        cases hparse
        exact ⟨rfl, hversion, .inl ⟨_, hmethod, rfl⟩⟩

theorem StartLineOf.parts (h : StartLineOf max line m) :
    ∃ a b c, line = a ++ [32] ++ (b ++ [32] ++ c) ++ crlf ∧ (32 : UInt8) ∉ b ∧
      Unbroken (a ++ [32] ++ (b ++ [32] ++ c)) ∧ parseStartLine [a, b, c] = some m := by
  obtain ⟨hfind, hparse, -⟩ := h
  rename_i text
  have hunbroken := unbroken_of_find hfind
  cases hsplit : split text (bytes " ") 3 with
  | nil => simp [hsplit, parseStartLine] at hparse
  | cons a parts =>
    match parts, hsplit with
    | [], hsplit => simp [hsplit, parseStartLine] at hparse
    | [b], hsplit => simp [hsplit, parseStartLine] at hparse
    | b :: c :: d :: parts, hsplit => simp [hsplit, parseStartLine] at hparse
    | [b, c], hsplit =>
      obtain ⟨rfl, -, hb⟩ := split_three_inv hsplit
      rw [hsplit] at hparse
      exact ⟨a, b, c, rfl, hb, hunbroken, hparse⟩

theorem StartLineOf.start (h : StartLineOf max line m) :
    m = begun m ∧ m.version ≠ .unknown ∧ StartRead m.startLine := by
  obtain ⟨a, b, c, -, hb, hunbroken, hparse⟩ := h.parts
  obtain ⟨hbegun, hversion, ⟨method, hmethod, hstart⟩ | ⟨code, hpos, hlt, hstart⟩⟩ :=
    parseStartLine_parts hparse
  · refine ⟨hbegun, hversion, ?_⟩
    rw [hstart]
    exact ⟨hmethod, hb, hunbroken.of_infix ⟨a ++ [32], [32] ++ c, by simp⟩⟩
  · refine ⟨hbegun, hversion, ?_⟩
    rw [hstart]
    exact ⟨hpos, hlt, hunbroken.of_infix ⟨a ++ [32] ++ (b ++ [32]), [], by simp⟩⟩

/-- A start line without a NUL begins a message without one. -/
theorem StartLineOf.nulFree (h : StartLineOf max line m) (hnul : (0 : UInt8) ∉ line) :
    m.NulFree := by
  obtain ⟨a, b, c, rfl, -, -, hparse⟩ := h.parts
  obtain ⟨hbegun, -, hstart⟩ := parseStartLine_parts hparse
  simp only [List.mem_append, not_or] at hnul
  obtain ⟨⟨-, ⟨hb, -⟩, hc⟩, -⟩ := hnul
  constructor
  · obtain ⟨method, -, hstart⟩ | ⟨code, -, -, hstart⟩ := hstart
    · rw [hstart]
      exact hb
    · rw [hstart]
      exact hc
  · rw [hbegun]
    nofun

/-! ## A message as it is read -/

/-- A message with the start line and the header fields of one that is read. -/
structure AsRead (m : HttpMessage) : Prop where
  start : StartRead m.startLine
  version : m.version ≠ .unknown
  headers : ∀ h ∈ m.headers.entries, NameRead h.1 ∧ ValueRead h.2

theorem unbroken_header {name value : Bytes} (hname : Unbroken name) (hvalue : Unbroken value) :
    Unbroken (name ++ bytes ": " ++ value) := by
  have hcolon : bytes ": " = [58] ++ [32] := rfl
  rw [hcolon, ← List.append_assoc]
  exact (hname.snoc (by decide)).append_blank hvalue

/-- A line that is printed, with its line end. -/
structure LineText (t l : Bytes) : Prop where
  eq : t = l ++ crlf
  ne_nil : l ≠ []
  unbroken : Unbroken l
  nul : (0 : UInt8) ∉ l

theorem formatHeader_text (hh : NameRead h.1 ∧ ValueRead h.2) : ∃ l, LineText (formatHeader h) l := by
  obtain ⟨⟨-, -, hname⟩, -, -, hvalue⟩ := hh
  refine ⟨cstr h.1 ++ bytes ": " ++ cstr h.2, rfl, by simp [bytes],
    unbroken_header (hname.of_infix (infix_cstr _)) (hvalue.of_infix (infix_cstr _)), ?_⟩
  simp only [List.mem_append, not_or]
  exact ⟨⟨not_mem_cstr _, by decide⟩, not_mem_cstr _⟩

theorem formatStartLine_text (hstart : StartRead m.startLine) :
    ∃ l, LineText (formatStartLine m) l := by
  have hblank : bytes " " = [32] := rfl
  have hversion : ∀ v, (13 : UInt8) ∉ HttpMessage.versionEnumToStr v ∧
      (0 : UInt8) ∉ HttpMessage.versionEnumToStr v := by
    intro v
    cases v <;> decide
  have hmethod : ∀ v, (13 : UInt8) ∉ HttpMessage.methodEnumToStr v ∧
      (0 : UInt8) ∉ HttpMessage.methodEnumToStr v := by
    intro v
    cases v <;> decide
  obtain ⟨hv13, hv0⟩ := hversion m.version
  unfold formatStartLine
  cases hm : m.startLine with
  | request method uri =>
    rw [hm] at hstart
    obtain ⟨-, -, huri⟩ := hstart
    obtain ⟨hm13, hm0⟩ := hmethod method
    refine ⟨_, rfl, by simp [hblank], ?_, ?_⟩
    · rw [hblank]
      exact ((unbroken_of_not_mem hm13).append_blank (huri.of_infix (infix_cstr _))).append_blank
        (unbroken_of_not_mem hv13)
    · simp only [List.mem_append, not_or]
      exact ⟨⟨⟨⟨hm0, by decide⟩, not_mem_cstr _⟩, by decide⟩, hv0⟩
  | response code reason =>
    rw [hm] at hstart
    obtain ⟨hpos, -, hreason⟩ := hstart
    have hcode : StringUtil.toStringInt code = StringUtil.toString code.natAbs := if_neg (by omega)
    refine ⟨_, rfl, by simp [hblank], ?_, ?_⟩
    · rw [hblank, hcode]
      exact ((unbroken_of_not_mem hv13).append_blank (unbroken_of_not_mem
        (not_mem_toString _ (.inl (by decide))))).append_blank (hreason.of_infix (infix_cstr _))
    · rw [hcode]
      simp only [List.mem_append, not_or]
      exact ⟨⟨⟨⟨hv0, by decide⟩, not_mem_toString _ (.inl (by decide))⟩, by decide⟩,
        not_mem_cstr _⟩

/-- The lines that are printed: all of them, or fewer than there are. -/
theorem exists_printed {ts : List Bytes} (hts : ∀ t ∈ ts, ∃ l, LineText t l) :
    ∃ ls : List Bytes, ts.flatMap printed = ls.flatMap (· ++ crlf) ∧
      (∀ l ∈ ls, (l ≠ [] ∧ Unbroken l) ∧ (0 : UInt8) ∉ l) ∧ ls.length ≤ ts.length ∧
      (ts.length ≤ ls.length → ∀ t ∈ ts, t.length < 2 ^ 31) := by
  induction ts with
  | nil => exact ⟨[], rfl, nofun, Nat.le_refl _, fun _ => nofun⟩
  | cons t ts ih =>
    obtain ⟨⟨l, hl⟩, hts⟩ := List.forall_mem_cons.mp hts
    obtain ⟨ls, hflat, hls, hle, hall⟩ := ih hts
    by_cases hshort : t.length < 2 ^ 31
    · refine ⟨l :: ls, ?_, ?_, Nat.succ_le_succ hle, fun hge => ?_⟩
      · rw [List.flatMap_cons, List.flatMap_cons, printed, if_pos hshort, hflat, hl.eq]
      · exact List.forall_mem_cons.mpr ⟨⟨⟨hl.ne_nil, hl.unbroken⟩, hl.nul⟩, hls⟩
      · exact List.forall_mem_cons.mpr ⟨hshort, hall (Nat.le_of_succ_le_succ hge)⟩
    · refine ⟨ls, ?_, hls, Nat.le_succ_of_le hle, fun hge => ?_⟩
      · rw [List.flatMap_cons, printed, if_neg hshort, hflat, List.nil_append]
      · rw [List.length_cons] at hge
        omega

/-! ## Reading what was printed -/

/-- The start line and the block that are read from lines are the first line and the others. -/
theorem opening_of_lines (hls : ∀ l ∈ ls, l ≠ [] ∧ Unbroken l)
    (hline : StartLineOf lim.startLine line m₀) (hblock : BlockOf lim.header m₀ block m₁)
    (hbytes : line ++ block ++ rest = ls.flatMap (· ++ crlf) ++ crlf ++ body) :
    ∃ l ls', ls = l :: ls' ∧ line = l ++ crlf ∧ m₁ = m₀.setHeaders (ls'.filterMap fieldOf) ∧
      rest = body := by
  have hline' := hline
  obtain ⟨hfind, hparse, -⟩ := hline'
  rename_i text
  have htext := unbroken_of_find hfind
  rw [List.append_assoc] at hbytes
  cases ls with
  | nil =>
    obtain ⟨hnil, -⟩ | ⟨t, hnil, -⟩ := htext.cut (p := []) hbytes
    · rw [← hnil] at hparse
      cases hparse
    · simp [crlf] at hnil
  | cons l ls =>
    obtain ⟨hl, hothers⟩ := List.forall_mem_cons.mp hls
    have hrest : text = l ∧ block ++ rest = ls.flatMap (· ++ crlf) ++ crlf ++ body := by
      rw [List.flatMap_cons, List.append_assoc (l ++ crlf), List.append_assoc (l ++ crlf)] at hbytes
      obtain ⟨rfl, hrest⟩ | ⟨t, rfl, -⟩ := hl.2.cut hbytes.symm
      · exact ⟨rfl, hrest⟩
      · exact absurd ⟨l, t, rfl⟩ htext
    obtain ⟨rfl, hrest⟩ := hrest
    obtain ⟨hfirst, hfind', hlines, -⟩ := hblock
    rename_i text'
    obtain rfl | hne := eq_or_ne ls []
    · refine absurd ?_ hfirst
      have htake := congrArg (List.take 2) hrest
      rw [List.take_append_of_le_length (by simp)] at htake
      rw [htake]
      rfl
    · rw [flatMap_crlf hne, List.append_assoc (joinLines ls)] at hrest
      have hcut := dropInfix?_joinLines hne hothers body
      obtain ⟨-, p, t, hcut', hp⟩ := find_eq_some.mp (find_append hfind' rest)
      rw [hrest, hcut] at hcut'
      cases hcut'
      obtain ⟨htext', hrest⟩ := List.append_inj hrest (by simp [hp])
      rw [List.append_cancel_right htext', split_joinLines hne fun l hl => (hothers l hl).2] at hlines
      exact ⟨text, ls, rfl, rfl, foldlM_fieldOf hlines, hrest⟩

theorem ChunksOf.length_le {raw : Bytes} (h : ChunksOf max raw body) : body.length ≤ raw.length := by
  induction h with
  | nil => exact Nat.le_refl _
  | snoc _ _ _ _ ih =>
    simp only [List.length_append]
    omega

theorem TrailerOf.body_eq (h : TrailerOf max m₀ trailer m) : m.body = m₀.body := by
  rw [h.fields]
  rfl

theorem AsRead.legible (hm : AsRead m) (hnul : m.NulFree)
    (hlength : m.headers.find (bytes "Content-Length") = some (StringUtil.toString m.body.length))
    (hbody : m.body.length < 2 ^ 31) : Legible m where
  start := by
    have hstart := hm.start
    have hnul := hnul.start
    cases hline : m.startLine with
    | request method uri =>
      rw [hline] at hstart hnul
      obtain ⟨hmethod, hblank, hunbroken⟩ := hstart
      exact ⟨hmethod, hblank, hunbroken, hnul⟩
    | response code reason =>
      rw [hline] at hstart hnul
      obtain ⟨hpos, hlt, hunbroken⟩ := hstart
      exact ⟨hpos, hlt, hunbroken, hnul⟩
  version := hm.version
  headers h hmem := by
    obtain ⟨⟨hcolon, hname, hunbroken⟩, -, hvalue, hunbroken'⟩ := hm.headers h hmem
    obtain ⟨hnul₁, hnul₂⟩ := hnul.headers h hmem
    exact ⟨⟨unbroken_header hunbroken hunbroken', hnul₁, hnul₂⟩,
      HttpProtocol.field_eq_self hcolon hname hvalue⟩
  contentLength := hlength
  body := hbody

theorem outcome_legible (hm : Legible m) (hprint : Printable m) (hin : Within q m)
    {pieces : List Bytes} (hpieces : pieces.flatten = written m) :
    outcome q.reset pieces = ([m], false) := by
  obtain ⟨messages, r, hfeeds, hout⟩ := outcome_feeds q pieces
  have hrun := (steps_wire hm hin []).runs (.wait (step_nil_reset q))
  rw [List.append_nil] at hrun
  obtain ⟨rfl, rfl⟩ := hfeeds.guarded_runs step_stable trivial overLimit_mono hrun nofun
    (by rw [List.nil_append, hpieces, written_eq_wire hprint])
  exact hout

theorem fieldOf_nul (hline : (0 : UInt8) ∉ line) (hf : fieldOf line = some f) :
    (0 : UInt8) ∉ f.1 := by
  obtain ⟨colon, -, rfl⟩ := Option.map_eq_some_iff.mp hf
  exact fun hmem => hline (List.mem_of_mem_take ((infix_trim _).subset hmem))

/-- A message that is read from what is written of it has been printed whole. -/
theorem printable_of_outcome (hm : AsRead m)
    (hlength : m.headers.find (bytes "Content-Length") = some (StringUtil.toString m.body.length))
    (h : outcome q.reset [written m] = ([m], false)) :
    m.NulFree ∧ Printable m ∧ m.body.length < 2 ^ 31 := by
  obtain ⟨ws, hread, t, ht⟩ := @readAs_of_outcome q [written m]
  rw [h] at hread
  cases hread with
  | @cons w _ ws _ hw hws =>
  cases hws
  obtain ⟨ls, hflat, hls, hle, hall⟩ :=
    @exists_printed (formatStartLine m :: m.headers.entries.map formatHeader)
      (List.forall_mem_cons.mpr ⟨formatStartLine_text hm.start, fun t ht => by
        obtain ⟨h, hmem, rfl⟩ := List.mem_map.mp ht
        exact formatHeader_text (hm.headers h hmem)⟩)
  have hwritten : w.bytes ++ t = ls.flatMap (· ++ crlf) ++ crlf ++ m.body := by
    rw [← hflat, List.flatMap_cons, List.flatMap_map]
    simpa [bytesOf, written] using ht
  cases hw with
  | bare hline =>
    obtain ⟨hbegun, -, -⟩ := hline.start
    rw [hbegun] at hlength
    cases hlength
  | @sized line block body m₀ m₁ hline hblock hhas hvalue hbody =>
    have hopening : line ++ block ++ (body ++ t) = ls.flatMap (· ++ crlf) ++ crlf ++ body :=
      Eq.trans (by simp [Parts.bytes]) hwritten
    obtain ⟨l, ls', rfl, rfl, rfl, -⟩ :=
      opening_of_lines (fun l hl => (hls l hl).1) hline hblock hopening
    obtain ⟨hbegun, -, -⟩ := hline.start
    obtain ⟨⟨-, hnul⟩, hothers⟩ := List.forall_mem_cons.mp hls
    have hempty : m₀.headers.entries = [] := by
      rw [hbegun]
      rfl
    have hcount := SortedMap.length_insertAll_le m₀.headers (ls'.filterMap fieldOf)
    have hfields : (ls'.filterMap fieldOf).length ≤ ls'.length := List.length_filterMap_le _ _
    rw [hempty, List.length_nil, Nat.zero_add] at hcount
    -- every header has come from a line of its own, so that none is missing
    have hprinted := hall (by
      rw [List.length_cons, List.length_map, List.length_cons]
      exact Nat.succ_le_succ (hcount.trans hfields))
    obtain ⟨hstart, hheaders⟩ := List.forall_mem_cons.mp hprinted
    have hread : ∀ f ∈ ls'.filterMap fieldOf, (0 : UInt8) ∉ f.1 ∧ True := by
      intro f hf
      obtain ⟨line, hline, hf⟩ := List.mem_filterMap.mp hf
      exact ⟨fieldOf_nul (hothers line hline).2 hf, trivial⟩
    have hnames := SortedMap.forall_insertAll (m := m₀.headers) (P := fun name => (0 : UInt8) ∉ name)
      (Q := fun _ => True) hread (by simp [hempty])
    refine ⟨⟨?_, fun h hmem => ⟨(hnames h hmem).1, (hm.headers h hmem).2.1⟩⟩, ⟨hstart, ?_⟩, ?_⟩
    · refine (hline.nulFree ?_).start
      simp only [List.mem_append, not_or]
      exact ⟨hnul, by decide⟩
    · exact fun h hmem => hheaders _ (List.mem_map_of_mem hmem)
    · have hlt := hvalue ▸ atoi_lt _
      show body.length < 2 ^ 31
      omega
  | @chunked line block raw last body trailer m₀ m₁ _ hline hblock hchunked hraw hlast hle' htrailer =>
    have hopening : line ++ block ++ (raw ++ (last ++ crlf) ++ trailer ++ t) =
        ls.flatMap (· ++ crlf) ++ crlf ++ m.body :=
      Eq.trans (by simp [Parts.bytes]) hwritten
    obtain ⟨-, -, -, -, -, hrest⟩ :=
      opening_of_lines (fun l hl => (hls l hl).1) hline hblock hopening
    have hraw := hraw.length_le
    have hlen := congrArg List.length (hrest.trans htrailer.body_eq)
    change _ = body.length at hlen
    simp only [List.length_append, length_crlf] at hlen
    omega

/-! ## The message that is delivered -/

variable {header fields : List (Bytes × Bytes)} {data name value : Bytes}

/-- The fields that count are headers of the delivered message. -/
theorem find_of_lastField (data : Bytes) (hm₀ : m₀ = begun m₀)
    (hlength : lastField header (bytes "Content-Length") = none)
    (hname : toLower name ≠ toLower (bytes "Transfer-Encoding")) {trailer : List (Bytes × Bytes)}
    (hvalue : lastField (header ++ trailer) name = some value) :
    (delivered m₀ header trailer data).headers.find name = some value := by
  rw [find_delivered hm₀, if_neg (Ne.symm hname)]
  rw [lastField_append] at hvalue
  cases htrailer : lastField trailer name with
  | some value' =>
    rw [htrailer] at hvalue
    exact hvalue
  | none =>
    rw [htrailer, Option.none_or] at hvalue
    rw [Option.none_or, if_neg fun heq => ?_, hvalue]
    rw [← lastField_congr heq, hlength] at hvalue
    cases hvalue

theorem not_mem_of_toLower {name' : Bytes} (hnul : (0 : UInt8) ∉ name')
    (heq : toLower name = toLower name') : (0 : UInt8) ∉ name := by
  intro hmem
  have hlower : (0 : UInt8) ∈ toLower name' := heq ▸ List.mem_map_of_mem hmem
  obtain ⟨c, hc, hzero⟩ := List.mem_map.mp hlower
  unfold StringUtil.tolower at hzero
  split at hzero
  · rename_i hupper
    have hle := UInt8.le_iff_toNat_le.mp hupper.2
    have h90 : (90 : UInt8).toNat = 90 := rfl
    have hsum := congrArg UInt8.toNat hzero
    rw [UInt8.toNat_add] at hsum
    change (c.toNat + 32) % 256 = 0 at hsum
    omega
  · exact hnul (hzero ▸ hc)

theorem length_formatHeader_eq (hname : (0 : UInt8) ∉ h.1) (hvalue : (0 : UInt8) ∉ h.2) :
    (formatHeader h).length = h.1.length + h.2.length + 4 := by
  have hcolon : (bytes ": ").length = 2 := rfl
  rw [formatHeader, cstr_eq hname, cstr_eq hvalue]
  simp only [List.length_append, length_crlf, hcolon]
  omega

theorem valueRead_toString (n : Nat) : ValueRead (StringUtil.toString n) := by
  have hblank : ∀ c ∈ StringUtil.toString n, StringUtil.isBlank c = false := by
    intro c hc
    have hbounds := digit_bounds ((toString_digits n).1 c hc)
    cases hb : StringUtil.isBlank c with
    | false => rfl
    | true =>
      simp only [StringUtil.isBlank, Bool.or_eq_true, beq_iff_eq] at hb
      obtain rfl | rfl := hb <;> exact absurd hbounds.1 (by decide)
  exact ⟨not_mem_toString n (.inl (by decide)),
    ⟨fun c hc => hblank c (List.mem_of_mem_head? hc), fun c hc => hblank c (List.mem_of_getLast? hc)⟩,
    unbroken_of_not_mem (not_mem_toString n (.inl (by decide)))⟩

/-- What is true of all fields is true of the headers of the delivered message. -/
theorem forall_delivered {P : Bytes → Prop} {Q : Bytes → Prop} (data : Bytes) (hm₀ : m₀ = begun m₀)
    {trailer : List (Bytes × Bytes)} (hfields : ∀ f ∈ header ++ trailer, P f.1 ∧ Q f.2)
    (hlength : P (bytes "Content-Length") ∧ Q (StringUtil.toString data.length)) :
    ∀ h ∈ (delivered m₀ header trailer data).headers.entries, P h.1 ∧ Q h.2 := by
  obtain ⟨hheader, htrailer⟩ := List.forall_mem_append.mp hfields
  have hempty : m₀.headers.entries = [] := by rw [hm₀]; rfl
  refine SortedMap.forall_insertAll htrailer fun h hmem => ?_
  have hset : ∀ f ∈ [(bytes "Content-Length", StringUtil.toString data.length)], P f.1 ∧ Q f.2 :=
    fun f hf => List.mem_singleton.mp hf ▸ hlength
  have hrewritten := SortedMap.forall_insertAll hset
    (SortedMap.forall_insertAll (m := m₀.headers) hheader (by rw [hempty]; nofun))
  exact hrewritten h (List.mem_filter.mp hmem).1

theorem asRead_delivered (data : Bytes) (hline : StartLineOf max line m₀)
    {trailer : List (Bytes × Bytes)}
    (hfields : ∀ f ∈ header ++ trailer, NameRead f.1 ∧ ValueRead f.2) :
    AsRead (delivered m₀ header trailer data) := by
  obtain ⟨hm₀, hversion, hstart⟩ := hline.start
  refine ⟨hstart, hversion, forall_delivered data hm₀ hfields ⟨⟨by decide, by decide, ?_⟩,
    valueRead_toString _⟩⟩
  exact unbroken_of_not_mem (by decide)

/-! ## Which messages are rewritten -/

/-- A reader with room for the message. -/
theorem exists_within (m : HttpMessage) : ∃ q, Within q m := by
  refine ⟨{ construct with
    startLineMaxSize := (formatStartLine m).length + 2
    headerMaxSize := (m.headers.entries.flatMap formatHeader).length + 4
    bodyMaxSize := m.body.length + 1
    startLineMaxSize_ge := by omega
    headerMaxSize_ge := by omega
    bodyMaxSize_pos := by omega }, ?_, ?_, ?_⟩
  · exact Nat.le_add_right _ 2
  · exact Nat.add_le_add_left (by decide) _
  · exact Nat.le_succ _

variable {trailerFields : List (Bytes × Bytes)}

/-- The trailer keeps what was rewritten. -/
theorem find_delivered_iff (header : List (Bytes × Bytes)) (hm₀ : m₀ = begun m₀) :
    ((delivered m₀ header trailerFields data).headers.find (bytes "Content-Length") =
        some (StringUtil.toString data.length) ∧
      (delivered m₀ header trailerFields data).headers.find (bytes "Transfer-Encoding") = none) ↔
    (∀ f ∈ trailerFields, toLower f.1 ≠ toLower (bytes "Transfer-Encoding")) ∧
      ∀ value ∈ lastField trailerFields (bytes "Content-Length"),
        value = StringUtil.toString data.length := by
  have hother : toLower (bytes "Transfer-Encoding") ≠ toLower (bytes "Content-Length") := by decide
  rw [find_delivered hm₀, find_delivered hm₀, if_neg hother, if_pos rfl, if_pos rfl, Option.or_none]
  constructor
  · rintro ⟨hlength, hencoding⟩
    refine ⟨fun f hf heq => lastField_ne_none hf (lastField_congr heq ▸ hencoding),
      fun value hvalue => ?_⟩
    rw [hvalue] at hlength
    exact Option.some.inj hlength
  · rintro ⟨hencoding, hlength⟩
    constructor
    · cases hvalue : lastField trailerFields (bytes "Content-Length") with
      | none => rfl
      | some value => exact congrArg some (hlength value hvalue)
    · rw [lastField, List.find?_eq_none.mpr fun f hf => ?_]
      · rfl
      · simpa using hencoding f (List.mem_reverse.mp hf)

theorem printable_delivered (hm₀ : m₀ = begun m₀) (hnul : (delivered m₀ header trailerFields data).NulFree)
    (h : Survives m₀ header trailerFields data) :
    Printable (delivered m₀ header trailerFields data) := by
  obtain ⟨-, hencoding⟩ := (find_delivered_iff header hm₀).mpr ⟨h.encoding, h.length⟩
  refine ⟨h.start.2.1, fun e hmem => ?_⟩
  have hfind := SortedMap.find_of_mem hmem
  obtain ⟨hname, hvalue⟩ := hnul.headers e hmem
  rw [length_formatHeader_eq hname hvalue]
  rw [find_delivered hm₀] at hfind hencoding
  have hne : toLower e.1 ≠ toLower (bytes "Transfer-Encoding") := by
    intro heq
    rw [if_pos heq.symm, lastField_congr heq] at hfind
    rw [if_pos rfl, hfind] at hencoding
    cases hencoding
  rw [if_neg (Ne.symm hne)] at hfind
  have hlines := h.lines e.1 e.2 hne
  rw [lastField_append] at hlines
  cases htrailer : lastField trailerFields e.1 with
  | some value =>
    rw [htrailer] at hfind hlines
    exact hlines hfind
  | none =>
    rw [htrailer, Option.none_or] at hfind hlines
    split at hfind
    · -- the length that the code has set
      rename_i heq
      have hsize : (bytes "Content-Length").length = e.1.length := by
        have := congrArg List.length heq
        simpa [toLower] using this
      have hlen : (bytes "Content-Length").length = 14 := rfl
      have hdigits : (StringUtil.toString data.length).length ≤ 10 :=
        length_toString_le (by decide) (h.data.trans (by decide))
      rw [← Option.some.inj hfind]
      omega
    · exact hlines hfind

/-- The delivered message is what is asked exactly if its parts are so. -/
theorem rewritten_iff_survives (hline : StartLineOf max line m₀)
    (hfields : ∀ f ∈ header ++ trailerFields, NameRead f.1 ∧ ValueRead f.2)
    (hlength : lastField header (bytes "Content-Length") = none) :
    Rewritten (delivered m₀ header trailerFields data) ↔ Survives m₀ header trailerFields data := by
  obtain ⟨hm₀, -, -⟩ := hline.start
  have hread := asRead_delivered data hline hfields
  constructor
  · intro h
    obtain ⟨q, hin⟩ := exists_within (delivered m₀ header trailerFields data)
    obtain ⟨hnul, hprint, hdata⟩ := printable_of_outcome hread h.length
      (h.reread q hin [written _] (by simp))
    obtain ⟨hencoding, hvalue⟩ := (find_delivered_iff header hm₀).mp ⟨h.length, h.encoding⟩
    have hempty : m₀.headers.entries = [] := by rw [hm₀]; rfl
    refine ⟨hencoding, hvalue, ⟨⟨hnul.start, by rw [hempty]; nofun⟩, hprint.1, by rw [hempty]; nofun⟩,
      fun f hf hzero => ?_, fun name value hname hlast => ?_, hdata⟩
    · obtain ⟨value, hlast⟩ := Option.ne_none_iff_exists'.mp (lastField_ne_none hf)
      have hne : toLower f.1 ≠ toLower (bytes "Transfer-Encoding") := fun heq =>
        not_mem_of_toLower (by decide) heq hzero
      obtain ⟨e, hmem, heq, -⟩ := SortedMap.mem_of_find
        (find_of_lastField data hm₀ hlength hne hlast)
      exact not_mem_of_toLower (hnul.headers e hmem).1 (StringUtil.equiv_iff.mp heq).symm hzero
    · obtain ⟨e, hmem, heq, rfl⟩ := SortedMap.mem_of_find
        (find_of_lastField data hm₀ hlength hname hlast)
      have hlen : e.1.length = name.length := by
        have := congrArg List.length (StringUtil.equiv_iff.mp heq)
        simpa [toLower] using this
      obtain ⟨hnul₁, hnul₂⟩ := hnul.headers e hmem
      have hshort := hprint.2 e hmem
      rw [length_formatHeader_eq hnul₁ hnul₂, hlen] at hshort
      exact hshort
  · intro h
    obtain ⟨hvalue, hencoding⟩ := (find_delivered_iff header hm₀).mpr ⟨h.encoding, h.length⟩
    have hnames := forall_delivered (P := fun name => (0 : UInt8) ∉ name)
      (Q := fun _ => True) data hm₀ (fun f hf => ⟨h.names f hf, trivial⟩) ⟨by decide, trivial⟩
    have hnul : (delivered m₀ header trailerFields data).NulFree :=
      ⟨h.start.1.start, fun e hmem => ⟨(hnames e hmem).1, (hread.headers e hmem).2.1⟩⟩
    exact ⟨hvalue, hencoding, fun q hin pieces hpieces =>
      outcome_legible (hread.legible hnul hvalue h.data) (printable_delivered hm₀ hnul h) hin hpieces⟩

/-- With room for it, `writeMessage` writes what is read again. -/
theorem Rewritten.delivered {b : DynamicBuffer} (h : Rewritten m) (hin : Within q m)
    (hint : IntStatus m.startLine) (hempty : b.readable = [])
    (hfit : reserved m + b.expandSize < 2 ^ 63) : Delivered q [m] b := by
  have hzero : b.readableBytes = 0 := by
    rw [← DynamicBuffer.length_readable, hempty, List.length_nil]
  obtain ⟨b', hwrite, hread, -⟩ := writeMessage_spec (b := b) m hint (by omega)
  rw [hempty, List.nil_append] at hread
  refine ⟨b', ?_, fun pieces hpieces => h.reread q hin pieces (hpieces.trans hread)⟩
  rw [writeMessages, List.foldlM_cons, hwrite]
  rfl

/-- Parts with a trailer are of a chunked message. -/
theorem ReadAs.rewritten_iff (h : ReadAs lim w m) (htrailer : w.trailer ≠ []) :
    ∃ m₀ data, Sent lim w m₀ data ∧
      (Rewritten m ↔ Survives m₀ (fieldsOf w.header) (fieldsOf w.trailer) data) := by
  cases h with
  | bare => exact absurd rfl htrailer
  | sized => exact absurd rfl htrailer
  | @chunked line block raw last data trailer m₀ m₁ m hline hblock hchunked hraw hlast _ htrailer =>
    refine ⟨m₀, data, ⟨hline, raw, last, rfl, hraw, hlast⟩, ?_⟩
    have hm : m = delivered m₀ (fieldsOf block) (fieldsOf trailer) data := by
      rw [htrailer.fields, hblock.fields]
      rfl
    have hlength : lastField (fieldsOf block) (bytes "Content-Length") = none := by
      obtain ⟨hm₀, -, -⟩ := hline.start
      have hempty : m₀.headers = SortedMap.empty := by rw [hm₀]; rfl
      have hnone : m₁.headers.find (bytes "Content-Length") = none := by
        simp only [isChunked, HttpMessage.hasHeader, Bool.and_eq_true, Bool.not_eq_true',
          Option.isSome_eq_false_iff, Option.isNone_iff_eq_none] at hchunked
        exact hchunked.1
      rw [hblock.fields] at hnone
      change (m₀.headers.insertAll (fieldsOf block)).find _ = none at hnone
      rw [SortedMap.find_insertAll, hempty] at hnone
      rw [lastField_eq]
      exact (Option.or_eq_none_iff.mp hnone).1
    rw [hm]
    refine rewritten_iff_survives hline (fun f hf => ?_) hlength
    obtain hf | hf := List.mem_append.mp hf
    · exact fieldsOf_read hf
    · exact fieldsOf_read hf

/-- The messages that are delivered from any stream, however it is cut, with the bytes that they
are read from: a chunked one is what is asked exactly if its trailer leaves the two headers alone
and its lines can be printed. -/
theorem outcome_rewritten_iff (p : HttpProtocol) (pieces : List Bytes) :
    ∃ ws, bytesOf ws <+: pieces.flatten ∧
      List.Forall₂ (fun w m => ReadAs p.limits w m ∧ (w.trailer ≠ [] →
        ∃ m₀ data, Sent p.limits w m₀ data ∧
          (Rewritten m ↔ Survives m₀ (fieldsOf w.header) (fieldsOf w.trailer) data)))
        ws (outcome p.reset pieces).1 := by
  obtain ⟨ws, hread, hbytes⟩ := @readAs_of_outcome p pieces
  exact ⟨ws, hbytes, hread.imp fun w m h => ⟨h, h.rewritten_iff⟩⟩

/-- Three bytes in a chunk, and another length in the trailer. -/
def relengthed : Bytes :=
  bytes ("POST / HTTP/1.1\r\nTransfer-Encoding: chunked\r\n\r\n" ++
    "3\r\nabc\r\n0\r\nContent-Length: 99\r\n\r\n")

/-- The length that the trailer says is the one that is delivered. -/
theorem not_outcome_rewritten : ¬ ∀ (p : HttpProtocol) (pieces : List Bytes),
    ∃ ws, bytesOf ws <+: pieces.flatten ∧
      List.Forall₂ (fun w m => ReadAs p.limits w m ∧ (w.trailer ≠ [] → Rewritten m))
        ws (outcome p.reset pieces).1 := by
  intro h
  obtain ⟨ws, -, hread⟩ := h construct [relengthed]
  have hout : ((outcome construct.reset [relengthed]).1.map
        fun m => (m.headers.find (bytes "Content-Length"), m.body)) =
      [(some (bytes "99"), bytes "abc")] := by
    decide +kernel
  generalize (outcome construct.reset [relengthed]).1 = out at hread hout
  cases hread with
  | nil => cases hout
  | @cons w m ws ms hm hms =>
    obtain ⟨hlength, hbody⟩ := Prod.mk.inj (List.cons.inj hout).1
    obtain ⟨hread, hrewritten⟩ := hm
    have hninety : atoi (bytes "99") = 99 := by decide
    have htrailer : w.trailer ≠ [] := by
      cases hread with
      | bare hline => rw [hline.body_eq] at hbody; cases hbody
      | @sized line block body m₀ m₁ hline hblock hhas hvalue hle =>
        have hget : m₁.getHeader (bytes "Content-Length") = bytes "99" :=
          congrArg (Option.getD · []) hlength
        change body = bytes "abc" at hbody
        rw [hget, hninety, hbody] at hvalue
        cases hvalue
      | chunked hline hblock hchunked hraw hlast hle htrailer =>
        cases htrailer with
        | none => nofun
        | block hblock' =>
          obtain ⟨-, -, -, -⟩ := hblock'
          simp [crlf]
    have hthree := (hrewritten htrailer).length
    rw [hlength, hbody] at hthree
    revert hthree
    decide

end HttpProtocol

end Brickred
