import Brickred.Protocol.HttpChunkHeads

/-!
# Chunked bodies

A body in chunks with their sizes in hexadecimal, and with fields behind it. `readBody` reads it
back as the bytes of the chunks, whatever the digits look like and however the stream is cut, as
long as the raw bytes that are present fit the limit on bodies. A chunk of four gigabytes or more
it does not: `sscanf` keeps 32 bits of its size.
-/

namespace Brickred

open Incremental
open StringUtil (find find_eq_some isBlank split toLower trim)
open HttpMessage (PlainHeader)

namespace HttpProtocol

/-- A number in hexadecimal digits of either case, with any number of zeros before it. -/
structure Spells (digits : Bytes) (n : Nat) : Prop where
  ne_nil : digits ≠ []
  xdigits : ∀ c ∈ digits, isxdigit c = true
  value : digitsValue 16 digits = n

/-- A field of a trailer, with blanks around the value. -/
structure Field where
  name : Bytes
  before : Bytes
  value : Bytes
  after : Bytes

def Field.line (f : Field) : Bytes := f.name ++ bytes ":" ++ (f.before ++ f.value ++ f.after)

def Field.header (f : Field) : Bytes × Bytes := (f.name, f.value)

/-- A field that says nothing of how the body is sent. -/
structure Field.WellFormed (f : Field) : Prop where
  plain : PlainHeader f.header
  before : ∀ c ∈ f.before, isBlank c = true
  after : ∀ c ∈ f.after, isBlank c = true
  not_length : toLower f.name ≠ toLower (bytes "Content-Length")
  not_encoding : toLower f.name ≠ toLower (bytes "Transfer-Encoding")

/-- A size and a chunk. -/
abbrev SizedChunk := Bytes × Bytes

def chunkWire (c : SizedChunk) : Bytes := c.1 ++ crlf ++ c.2 ++ crlf

def chunksWire (cs : List SizedChunk) : Bytes := cs.flatMap chunkWire

/-- Chunks, the zero behind them, and the fields of the trailer. -/
structure ChunkedBody where
  chunks : List SizedChunk
  last : Bytes
  fields : List Field

namespace ChunkedBody

variable (b : ChunkedBody)

def data : List Bytes := b.chunks.map Prod.snd

def raw : Bytes := chunksWire b.chunks ++ (b.last ++ crlf)

def trailer : Bytes := b.fields.flatMap (fun f => f.line ++ crlf) ++ crlf

structure WellFormed : Prop where
  chunks : ∀ c ∈ b.chunks, Spells c.1 c.2.length ∧ c.2 ≠ []
  last : Spells b.last 0
  fields : ∀ f ∈ b.fields, f.WellFormed

/-- The message with this body: its headers say the length and no longer the encoding, and the
fields are added to them. -/
def message (m : HttpMessage) : HttpMessage :=
  (chunkedMessage m b.data.flatten).setHeaders (b.fields.map Field.header)

end ChunkedBody

/-- How much is present of a body: `now` bytes of it have come, and `before` bytes of it had come
with the piece before, whose chunks have lost their framing. -/
def present : List SizedChunk → Nat → Nat → Nat
  | [], _, now => now
  | c :: cs, before, now =>
    if (chunkWire c).length ≤ before then
      c.2.length + present cs (before - (chunkWire c).length) (now - (chunkWire c).length)
    else
      now

/-- With every piece that comes before the chunks are complete, what is present of the body and
behind it is within the limit. -/
def Fits (max : Nat) (front : Bytes) (b : ChunkedBody) (pieces : List Bytes) : Prop :=
  ∀ qs piece rs, pieces = qs ++ piece :: rs → qs.flatten.length < (front ++ b.raw).length →
    present b.chunks (qs.flatten.length - front.length)
      ((qs ++ [piece]).flatten.length - front.length) ≤ max

/-- What is asked of chunks: whatever the message, the digits and the fields are, whatever comes
behind and however the stream is cut. -/
def ChunksDelivered (data : List Bytes) : Prop :=
  ∀ (p : HttpProtocol) (front : Bytes) (m : HttpMessage) (b : ChunkedBody) (more : Bytes)
    (pieces : List Bytes),
    OpeningOf p.limits front m → isChunked m = true → b.data = data → b.WellFormed →
    b.trailer.length ≤ p.headerMaxSize →
    pieces.flatten = front ++ b.raw ++ b.trailer ++ more →
    Fits p.bodyMaxSize front b pieces →
    ∃ q, p.reset.await [] pieces = (.messageReady, q, more) ∧ q.state = .finished (b.message m) ∧
      (b.message m).body = data.flatten

variable {p q s : HttpProtocol} {m message : HttpMessage} {front body head rest left more t : Bytes}
  {pieces ps : List Bytes} {n max : Nat} {b : ChunkedBody} {cs : List SizedChunk} {c : SizedChunk}
  {digits last buffer : Bytes}

/-! ## Sizes -/

theorem Spells.find_eq (h : Spells digits n) : find (digits ++ crlf) crlf = some digits.length := by
  have hunbroken := unbroken_of_not_mem fun hmem => (xdigit_spec (h.xdigits 13 hmem)).2.1 rfl
  have hcut := hunbroken.dropInfix? []
  rw [List.append_nil] at hcut
  exact find_eq_some.mpr ⟨by decide, digits, [], hcut, rfl⟩

theorem Spells.sscanfHex_eq (h : Spells digits n) :
    sscanfHex digits = some (min n (2 ^ 64 - 1) % 2 ^ 32) := by
  have hscan := @sscanfHex_append digits [] h.xdigits h.ne_nil (by simp)
  rwa [List.append_nil, h.value] at hscan

/-- A size of 32 bits is read. -/
theorem Spells.headOf (h : Spells digits n) (hlt : n < 2 ^ 32) : HeadOf digits n := by
  refine ⟨h.find_eq, ?_⟩
  rw [h.sscanfHex_eq, Nat.min_eq_left (by omega), Nat.mod_eq_of_lt hlt]

theorem length_chunkWire (c : SizedChunk) :
    (chunkWire c).length = c.1.length + 2 + c.2.length + 2 := by
  simp only [chunkWire, List.length_append, length_crlf]

/-! ## Fields -/

theorem Field.WellFormed.plain_line {f : Field} (h : f.WellFormed) : Plain f.line := by
  have hblank : ∀ {s : Bytes}, (∀ c ∈ s, isBlank c = true) → Plain s := by
    intro s hs
    refine ⟨?_, ?_, ?_⟩ <;> exact fun hmem => absurd (hs _ hmem) (by decide)
  obtain ⟨hn13, hn10, hn0⟩ := h.plain.name_plain
  obtain ⟨hv13, hv10, hv0⟩ := h.plain.value_plain
  obtain ⟨hb13, hb10, hb0⟩ := hblank h.before
  obtain ⟨ha13, ha10, ha0⟩ := hblank h.after
  change (13 : UInt8) ∉ f.name at hn13
  change (13 : UInt8) ∉ f.value at hv13
  change (10 : UInt8) ∉ f.name at hn10
  change (10 : UInt8) ∉ f.value at hv10
  change (0 : UInt8) ∉ f.name at hn0
  change (0 : UInt8) ∉ f.value at hv0
  unfold Field.line
  refine ⟨?_, ?_, ?_⟩ <;> simp only [List.mem_append, not_or]
  · exact ⟨⟨hn13, by decide⟩, ⟨hb13, hv13⟩, ha13⟩
  · exact ⟨⟨hn10, by decide⟩, ⟨hb10, hv10⟩, ha10⟩
  · exact ⟨⟨hn0, by decide⟩, ⟨hb0, hv0⟩, ha0⟩

/-- The line of a field is read as the field. -/
theorem Field.WellFormed.setHeaderLine_eq {f : Field} (h : f.WellFormed) (m : HttpMessage) :
    setHeaderLine m f.line = some (m.setHeader f.name f.value) := by
  have hcolon : (58 : UInt8) ∉ f.name := h.plain.name_colon
  have hfind : find f.line (bytes ":") = some f.name.length :=
    find_eq_some.mpr ⟨by decide, f.name, _, FirstInfix.append_self hcolon _, rfl⟩
  have htake : f.line.take f.name.length = f.name := by
    rw [Field.line, List.append_assoc, List.take_left]
  have hdrop : f.line.drop (f.name.length + 1) = f.before ++ f.value ++ f.after := by
    rw [Field.line, List.drop_left' (by simp [bytes])]
  have hnul : (0 : UInt8) ∉ f.before ++ f.value ++ f.after := fun hmem =>
    h.plain_line.2.2 (List.mem_append_right _ hmem)
  have hname : trim f.name = f.name := trim_eq h.plain.name_trimmed
  have hvalue := trim_blanks h.before h.after h.plain.value_trimmed
  unfold setHeaderLine
  rw [hfind, Option.map_some, htake, hdrop, cstr_eq hnul, hname]
  exact congrArg (fun value => some (m.setHeader f.name value)) hvalue

theorem foldlM_fields {fs : List Field} (hfs : ∀ f ∈ fs, f.WellFormed) (m : HttpMessage) :
    (fs.map Field.line).foldlM setHeaderLine m = some (m.setHeaders (fs.map Field.header)) := by
  induction fs generalizing m with
  | nil => rfl
  | cons f fs ih =>
    rw [List.map_cons, List.foldlM_cons, (hfs f (.head _)).setHeaderLine_eq]
    exact ih (fun f' hmem => hfs f' (.tail _ hmem)) _

/-- Lines are a block. -/
theorem blockOf_lines {ls : List Bytes} {m' : HttpMessage} (hne : ls ≠ [])
    (hls : ∀ l ∈ ls, l ≠ [] ∧ Unbroken l) (hlines : ls.foldlM setHeaderLine m = some m')
    (hle : (joinLines ls ++ (crlf ++ crlf)).length ≤ max) :
    BlockOf max m (joinLines ls ++ (crlf ++ crlf)) m' := by
  have hstart := take_joinLines_ne hne hls []
  have hfirst := dropInfix?_joinLines hne hls []
  rw [List.append_nil] at hstart hfirst
  refine .mk hstart (find_eq_some.mpr ⟨by decide, _, [], hfirst, rfl⟩) ?_ hle
  rwa [split_joinLines hne fun l hl => (hls l hl).2]

/-- The fields are read as a trailer. -/
theorem ChunkedBody.WellFormed.trailerOf (h : b.WellFormed) (hle : b.trailer.length ≤ max)
    (m : HttpMessage) : TrailerOf max m b.trailer (m.setHeaders (b.fields.map Field.header)) := by
  unfold ChunkedBody.trailer at hle ⊢
  cases hfs : b.fields with
  | nil => exact .none
  | cons f fs =>
    have hne : b.fields.map Field.line ≠ [] := by simp [hfs]
    have hlines : b.fields.flatMap (fun f => f.line ++ crlf) ++ crlf =
        joinLines (b.fields.map Field.line) ++ (crlf ++ crlf) := by
      rw [← List.append_assoc, ← flatMap_crlf hne, List.flatMap_map]
    rw [← hfs, hlines]
    rw [hlines] at hle
    refine .block (blockOf_lines hne (fun l hl => ?_) (foldlM_fields h.fields m) hle)
    obtain ⟨f, hmem, rfl⟩ := List.mem_map.mp hl
    exact ⟨by simp [Field.line, bytes], unbroken_of_not_mem (h.fields f hmem).plain_line.1⟩

/-! ## What is present -/

theorem chunksWire_cons : chunksWire (c :: cs) = chunkWire c ++ chunksWire cs := rfl

theorem present_cons_of_lt {before now : Nat} (h : before < (chunkWire c).length) :
    present (c :: cs) before now = now :=
  if_neg (Nat.not_le.mpr h)

theorem present_cons_add {before now : Nat} :
    present (c :: cs) ((chunkWire c).length + before) ((chunkWire c).length + now) =
      c.2.length + present cs before now := by
  rw [present, if_pos (Nat.le_add_right _ _), Nat.add_sub_cancel_left, Nat.add_sub_cancel_left]

theorem present_zero (cs : List SizedChunk) (now : Nat) : present cs 0 now = now := by
  cases cs with
  | nil => rfl
  | cons c cs =>
    have := length_chunkWire c
    exact present_cons_of_lt (by omega)

/-- When all chunks have come, all their bytes are present. -/
theorem length_le_present {before now : Nat} (h : (chunksWire cs).length ≤ now) :
    (cs.map Prod.snd).flatten.length ≤ present cs before now := by
  induction cs generalizing before now with
  | nil => exact Nat.zero_le _
  | cons c cs ih =>
    have hlen := length_chunkWire c
    rw [chunksWire_cons, List.length_append] at h
    rw [List.map_cons, List.flatten_cons, List.length_append]
    by_cases hle : (chunkWire c).length ≤ before
    · have hrest := @ih (before - (chunkWire c).length) (now - (chunkWire c).length) (by omega)
      rw [present, if_pos hle]
      omega
    · have hrest := @ih 0 (now - (chunkWire c).length) (by omega)
      rw [present_cons_of_lt (Nat.not_le.mp hle)]
      rw [present_zero] at hrest
      omega

/-- Some piece brings the byte at a place in the stream. -/
theorem exists_piece (h : n < pieces.flatten.length) :
    ∃ qs piece rs, pieces = qs ++ piece :: rs ∧ qs.flatten.length ≤ n ∧
      n < (qs ++ [piece]).flatten.length := by
  induction pieces generalizing n with
  | nil => cases h
  | cons p ps ih =>
    rw [List.flatten_cons, List.length_append] at h
    by_cases hlt : n < p.length
    · exact ⟨[], p, ps, rfl, Nat.zero_le n, by simpa using hlt⟩
    · obtain ⟨qs, piece, rs, rfl, hle, hn⟩ := @ih (n - p.length) (by omega)
      refine ⟨p :: qs, piece, rs, rfl, ?_, ?_⟩
      · rw [List.flatten_cons, List.length_append]
        omega
      · rw [List.cons_append, List.flatten_cons, List.length_append]
        omega

/-- The bytes of the chunks are within the limit, as they are all present in the end. -/
theorem Fits.length_le (h : Fits max front b pieces)
    (hpieces : (front ++ b.raw).length ≤ pieces.flatten.length) : b.data.flatten.length ≤ max := by
  have hraw : b.raw.length = (chunksWire b.chunks).length + (b.last.length + 2) := by
    rw [ChunkedBody.raw, List.length_append, List.length_append, length_crlf]
  rw [List.length_append] at hpieces
  obtain ⟨qs, piece, rs, hsplit, hle, hlt⟩ :=
    @exists_piece pieces (front.length + b.raw.length - 1) (by omega)
  refine Nat.le_trans ?_ (h qs piece rs hsplit (by rw [List.length_append]; omega))
  exact length_le_present (by omega)

/-! ## Feeding -/

/-- The opening is read with the piece that completes it. -/
theorem feeds_opening {messages : List HttpMessage} {r : Outcome UInt8 HttpProtocol Failure}
    (hfront : OpeningOf p.limits front m) (hchunked : isChunked m = true)
    (hpieces : pieces.flatten = front ++ t)
    (h : Feeds guardedStep p.reset [] ([] :: pieces) messages r) :
    ∃ qs piece rs buffer, pieces = qs ++ piece :: rs ∧ qs.flatten.length < front.length ∧
      (qs ++ [piece]).flatten = front ++ buffer ∧ buffer ++ rs.flatten = t ∧
      Feeds guardedStep (readingChunks p m []) [] (buffer :: rs) messages r := by
  obtain ⟨hline, hblock⟩ := hfront
  rename_i line block m₀
  have htake₁ : ∀ x, step p.reset (line ++ x) = .next { p.reset with state := .readingHeader m₀ } x [] := by
    intro x
    show ofHandled _ (p.reset.readStartLine _) = _
    rw [StartLineOf.read (p := p.reset) hline]
    rfl
  have htake₂ : ∀ x, step { p.reset with state := .readingHeader m₀ } (block ++ x) =
      .next (readingChunks p m []) x [] := by
    intro x
    rw [step_header rfl, BlockOf.read (p := { p.reset with state := .readingHeader m₀ }) hblock]
    exact congrArg (fun q => Action.next q x []) (opened_chunked hchunked)
  rw [List.append_assoc] at hpieces
  obtain ⟨qs₁, rs₁, b₁, out₁, rfl, hb₁, ht₁, hshort₁, rfl, hfeeds₁⟩ :=
    h.guarded_take step_stable trivial htake₁ hpieces fun _ _ _ _ => rfl
  obtain ⟨qs₂, rs₂, b₂, out₂, rfl, hb₂, ht₂, hshort₂, rfl, hfeeds₂⟩ :=
    hfeeds₁.guarded_take step_stable trivial htake₂ ht₁ fun _ _ _ _ => rfl
  rw [List.nil_append] at hb₁
  have hall : (qs₁ ++ qs₂).flatten = line ++ block ++ b₂ := by
    rw [List.flatten_append, hb₁, List.append_assoc, hb₂, List.append_assoc]
  -- the last of these pieces completes the block, or the line and the block with it
  obtain rfl | ⟨qs, piece, rfl⟩ := List.eq_nil_or_concat qs₂
  · obtain rfl | ⟨qs, piece, rfl⟩ := List.eq_nil_or_concat qs₁
    · have hline := hline.ne_nil
      simp only [List.flatten_nil, List.nil_eq, List.append_eq_nil_iff] at hb₁
      exact absurd hb₁.1 hline
    · have hlt := hshort₁ qs piece (List.concat_eq_append ..)
      rw [List.concat_eq_append] at hall ⊢
      refine ⟨qs, piece, rs₂, b₂, by simp, ?_, by simpa using hall, ht₂, hfeeds₂⟩
      rw [List.length_append]
      rw [List.nil_append] at hlt
      omega
  · have hlt := hshort₂ qs piece (List.concat_eq_append ..)
    rw [List.concat_eq_append] at hall ⊢
    refine ⟨qs₁ ++ qs, piece, rs₂, b₂, by simp, ?_, by simpa using hall, ht₂, hfeeds₂⟩
    rw [List.flatten_append, hb₁, List.append_assoc]
    simp only [List.length_append] at hlt ⊢
    omega

/-- What is within the limit is not over it. -/
theorem overLimit_readingChunks (hchunked : isChunked m = true)
    (hle : body.length + buffer.length ≤ p.bodyMaxSize) :
    overLimit (readingChunks p m body) buffer = false := by
  have hnot := not_congr (overLimit_chunked (q := readingChunks p m body) rfl hchunked buffer)
  rw [Bool.not_eq_true] at hnot
  exact hnot.mpr (Nat.not_lt.mpr hle)

theorem step_chunkWire (hchunked : isChunked m = true) (hhead : HeadOf c.1 c.2.length)
    (hpos : 0 < c.2.length) (hle : c.2.length ≤ p.bodyMaxSize) (x : Bytes) :
    step (readingChunks p m body) (chunkWire c ++ x) =
      .next (readingChunks p m (body ++ c.2)) x [] := by
  have hwire : chunkWire c ++ x = c.1 ++ crlf ++ (c.2 ++ crlf ++ x) := by
    simp only [chunkWire, List.append_assoc]
  have hdata := @readChunk_eq_data p.bodyMaxSize c.1 c.2 x
    (by rw [List.append_assoc, List.append_assoc, ← List.append_assoc c.2]
        exact StringUtil.find_append hhead.find_eq _) hhead.size_eq hpos hle
  rw [step_chunked (q := readingChunks p m body) rfl hchunked]
  exact congrArg (ofChunk _ m) hdata

theorem step_lastWire (hchunked : isChunked m = true) (hlast : HeadOf last 0) (x : Bytes) :
    step (readingChunks p m body) (last ++ crlf ++ x) =
      .next ((readingChunks p m body).beginTrailer m) x [] := by
  rw [step_chunked (q := readingChunks p m body) rfl hchunked]
  exact congrArg (ofChunk _ m)
    (readChunk_eq_last _ x (StringUtil.find_append hlast.find_eq x) hlast.size_eq)

/-- The chunks are read, each with the piece that completes it. -/
theorem feeds_chunks {messages : List HttpMessage} {r : Outcome UInt8 HttpProtocol Failure}
    (hchunked : isChunked m = true)
    (hcs : ∀ c ∈ cs, HeadOf c.1 c.2.length ∧ 0 < c.2.length ∧ c.2.length ≤ p.bodyMaxSize)
    (hlast : HeadOf last 0)
    (hb : buffer ++ ps.flatten = chunksWire cs ++ (last ++ crlf) ++ t)
    (hnow : body.length + buffer.length ≤ p.bodyMaxSize)
    (hfits : ∀ qs piece rs, ps = qs ++ piece :: rs →
      (buffer ++ qs.flatten).length < (chunksWire cs ++ (last ++ crlf)).length →
      body.length + present cs (buffer ++ qs.flatten).length
        (buffer ++ (qs ++ [piece]).flatten).length ≤ p.bodyMaxSize)
    (h : Feeds guardedStep (readingChunks p m body) [] (buffer :: ps) messages r) :
    ∃ buffer' rs, buffer' ++ rs.flatten = t ∧
      Feeds guardedStep ((readingChunks p m (body ++ (cs.map Prod.snd).flatten)).beginTrailer m) []
        (buffer' :: rs) messages r := by
  induction cs generalizing body buffer ps messages with
  | nil =>
    have hfree : ∀ qs rs, ps = qs ++ rs →
        (∀ qs₁ p', qs = qs₁ ++ [p'] → (buffer ++ qs₁.flatten).length < (last ++ crlf).length) →
        overLimit (readingChunks p m body) (buffer ++ qs.flatten) = false := by
      intro qs rs hps hshort
      refine overLimit_readingChunks hchunked ?_
      obtain rfl | ⟨qs₁, p', rfl⟩ := List.eq_nil_or_concat qs
      · simpa using hnow
      · rw [List.concat_eq_append] at hps hshort ⊢
        exact hfits qs₁ p' rs (by simp [hps]) (hshort qs₁ p' rfl)
    obtain ⟨qs, rs, b', out, rfl, -, ht, -, rfl, hfeeds⟩ := h.guarded_take step_stable trivial
      (step_lastWire hchunked hlast) hb hfree
    refine ⟨b', rs, ht, ?_⟩
    rw [List.map_nil, List.flatten_nil, List.append_nil]
    exact hfeeds
  | cons c cs ih =>
    obtain ⟨hhead, hpos, hle⟩ := hcs c (.head _)
    have hwhole : (chunksWire (c :: cs) ++ (last ++ crlf)).length =
        (chunkWire c).length + (chunksWire cs ++ (last ++ crlf)).length := by
      rw [chunksWire_cons, List.append_assoc, List.length_append]
    have hbound : ∀ qs rs, ps = qs ++ rs →
        (∀ qs₁ p', qs = qs₁ ++ [p'] → (buffer ++ qs₁.flatten).length < (chunkWire c).length) →
        body.length + (buffer ++ qs.flatten).length ≤ p.bodyMaxSize := by
      intro qs rs hps hshort
      obtain rfl | ⟨qs₁, p', rfl⟩ := List.eq_nil_or_concat qs
      · simpa using hnow
      · rw [List.concat_eq_append] at hps hshort ⊢
        have hlt := hshort qs₁ p' rfl
        have hpresent := hfits qs₁ p' rs (by simp [hps]) (by omega)
        rwa [present_cons_of_lt hlt] at hpresent
    have hb' : buffer ++ ps.flatten = chunkWire c ++ (chunksWire cs ++ (last ++ crlf) ++ t) := by
      rw [hb, chunksWire_cons]
      simp only [List.append_assoc]
    obtain ⟨qs, rs, b', out, rfl, hw, ht, hshort, rfl, hfeeds⟩ := h.guarded_take step_stable trivial
      (step_chunkWire hchunked hhead hpos hle) hb'
      fun qs rs hps hshort => overLimit_readingChunks hchunked (hbound qs rs hps hshort)
    have hnow' : (body ++ c.2).length + b'.length ≤ p.bodyMaxSize := by
      have hb'' := hbound qs rs rfl hshort
      rw [hw, List.length_append, length_chunkWire] at hb''
      rw [List.length_append]
      omega
    -- what is present is what is present behind the chunk, and its bytes
    have hbehind : ∀ z : List Bytes, (buffer ++ (qs ++ z).flatten).length =
        (chunkWire c).length + (b' ++ z.flatten).length := by
      intro z
      rw [List.flatten_append, ← List.append_assoc, hw, List.append_assoc, List.length_append]
    have hfits' : ∀ qs' piece rs', rs = qs' ++ piece :: rs' →
        (b' ++ qs'.flatten).length < (chunksWire cs ++ (last ++ crlf)).length →
        (body ++ c.2).length + present cs (b' ++ qs'.flatten).length
          (b' ++ (qs' ++ [piece]).flatten).length ≤ p.bodyMaxSize := by
      intro qs' piece rs' hrs hlt
      have hpresent := hfits (qs ++ qs') piece rs' (by rw [hrs, List.append_assoc])
        (by rw [hbehind, hwhole]; omega)
      rw [hbehind, List.append_assoc, hbehind, present_cons_add] at hpresent
      rw [List.length_append]
      omega
    obtain ⟨buffer', rs', ht', hfeeds'⟩ := ih (fun c' hmem => hcs c' (.tail _ hmem)) ht hnow'
      hfits' hfeeds
    refine ⟨buffer', rs', ht', ?_⟩
    rw [List.map_cons, List.flatten_cons, ← List.append_assoc]
    exact hfeeds'

/-! ## Chunks that are delivered -/

theorem chunksOf_append {raw : Bytes} (hraw : ChunksOf max raw body)
    (hcs : ∀ c ∈ cs, HeadOf c.1 c.2.length ∧ 0 < c.2.length ∧ c.2.length ≤ max) :
    ChunksOf max (raw ++ chunksWire cs) (body ++ (cs.map Prod.snd).flatten) := by
  induction cs generalizing raw body with
  | nil =>
    show ChunksOf max (raw ++ []) (body ++ [])
    rwa [List.append_nil, List.append_nil]
  | cons c cs ih =>
    obtain ⟨hhead, hpos, hle⟩ := hcs c (.head _)
    have hrest := ih (hraw.snoc hhead hpos hle) fun c' hmem => hcs c' (.tail _ hmem)
    rw [chunksWire_cons, List.map_cons, List.flatten_cons, ← List.append_assoc, ← List.append_assoc]
    exact hrest

/-- Something is delivered if what is present is within the limit. -/
theorem outcome_delivered (hfront : OpeningOf p.limits front m) (hchunked : isChunked m = true)
    (hcs : ∀ c ∈ b.chunks, HeadOf c.1 c.2.length ∧ 0 < c.2.length ∧ c.2.length ≤ p.bodyMaxSize)
    (hlast : HeadOf b.last 0)
    (htrailer : TrailerOf p.headerMaxSize (chunkedMessage m b.data.flatten) b.trailer message)
    (hpieces : pieces.flatten = front ++ (b.raw ++ (b.trailer ++ more)))
    (hfits : Fits p.bodyMaxSize front b pieces) : (outcome p.reset pieces).1 ≠ [] := by
  obtain ⟨messages, r, hfeeds, hout⟩ := outcome_feeds p pieces
  obtain ⟨qs, piece, rs, buffer, rfl, hshort, hall, hrest, hfeeds₁⟩ :=
    feeds_opening hfront hchunked hpieces hfeeds
  have hcome : ∀ z : List Bytes, (qs ++ piece :: z).flatten.length - front.length =
      (buffer ++ z.flatten).length := by
    intro z
    have hz : (qs ++ piece :: z).flatten = front ++ (buffer ++ z.flatten) := by
      rw [← List.append_assoc, ← hall]
      simp
    rw [hz, List.length_append, Nat.add_sub_cancel_left]
  -- nothing of the body has come before the piece that completes the opening
  have hnow : ([] : Bytes).length + buffer.length ≤ p.bodyMaxSize := by
    have hpresent := hfits qs piece rs rfl (by rw [List.length_append]; omega)
    rw [Nat.sub_eq_zero_of_le (Nat.le_of_lt hshort), hcome [], present_zero] at hpresent
    simpa using hpresent
  have hfits' : ∀ qs' piece' rs', rs = qs' ++ piece' :: rs' →
      (buffer ++ qs'.flatten).length < (chunksWire b.chunks ++ (b.last ++ crlf)).length →
      ([] : Bytes).length + present b.chunks (buffer ++ qs'.flatten).length
        (buffer ++ (qs' ++ [piece']).flatten).length ≤ p.bodyMaxSize := by
    intro qs' piece' rs' hrs hlt
    have hpresent := hfits (qs ++ piece :: qs') piece' rs' (by rw [hrs]; simp) (by
      have := hcome qs'
      rw [List.length_append]
      change _ < (b.raw).length at hlt
      omega)
    rw [hcome, List.append_assoc, List.cons_append, hcome] at hpresent
    rwa [List.length_nil, Nat.zero_add]
  obtain ⟨buffer', rs', hrest', hfeeds₂⟩ := feeds_chunks hchunked hcs hlast
    (by rw [hrest, ChunkedBody.raw]) hnow hfits' hfeeds₁
  rw [List.nil_append] at hfeeds₂
  have hend : ∀ x, step ((readingChunks p m b.data.flatten).beginTrailer m) (b.trailer ++ x) =
      .next p.reset x [message] :=
    htrailer.step (q := (readingChunks p m b.data.flatten).beginTrailer m) rfl
  obtain ⟨-, -, -, out, -, -, -, -, rfl, -⟩ := hfeeds₂.guarded_take step_stable trivial hend hrest'
    fun _ _ _ _ => rfl
  rw [hout]
  exact nofun

/-- Chunks whose sizes have 32 bits are delivered. -/
theorem delivered_of_small {data : List Bytes} (hsmall : ∀ d ∈ data, d.length < 2 ^ 32) :
    ChunksDelivered data := by
  intro p front m b more pieces hfront hchunked hdata hwell htrailer hpieces hfits
  subst hdata
  have hbody : b.data.flatten.length ≤ p.bodyMaxSize := by
    refine hfits.length_le ?_
    rw [hpieces, List.append_assoc]
    exact (List.prefix_append _ _).length_le
  have hcs : ∀ c ∈ b.chunks, HeadOf c.1 c.2.length ∧ 0 < c.2.length ∧
      c.2.length ≤ p.bodyMaxSize := by
    intro c hc
    obtain ⟨hspells, hne⟩ := hwell.chunks c hc
    have hmem : c.2 ∈ b.data := List.mem_map_of_mem hc
    exact ⟨hspells.headOf (hsmall _ hmem), List.length_pos_iff.mpr hne,
      Nat.le_trans (List.sublist_flatten_of_mem hmem).length_le hbody⟩
  have hlast := hwell.last.headOf (by decide)
  have hfields := hwell.trailerOf htrailer (chunkedMessage m b.data.flatten)
  have hsteps : Steps step p.reset pieces.flatten p.reset more [b.message m] := by
    obtain ⟨hline, hblock⟩ := hfront
    have hraw := chunksOf_append .nil hcs
    have hread : ReadAs p.limits ⟨_, _, chunksWire b.chunks ++ (b.last ++ crlf), b.trailer⟩
      (b.message m) := .chunked hline hblock hchunked hraw hlast hbody hfields
    have hsteps := hread.steps more
    simpa only [hpieces, Parts.bytes, ChunkedBody.raw, List.append_assoc] using hsteps
  have hpieces' : pieces.flatten = front ++ (b.raw ++ (b.trailer ++ more)) := by
    rw [hpieces]
    simp only [List.append_assoc]
  have hdelivered : (outcome p.reset pieces).1 ≠ [] :=
    outcome_delivered hfront hchunked hcs hlast hfields hpieces' hfits
  obtain ⟨q, hready, hstate⟩ := await_eq_ready hsteps hdelivered
  exact ⟨q, hready, hstate, rfl⟩

/-! ## Chunks that are too large -/

theorem sscanfHex_lt {v : Nat} (h : sscanfHex head = some v) : v < 2 ^ 32 := by
  unfold sscanfHex at h
  dsimp only at h
  split at h
  · cases h
  · cases h
    exact Nat.mod_lt _ (by decide)

/-- The line is no longer than the bytes before a line end. -/
theorem find_le_of_append {y : Bytes} (h : find (y ++ crlf ++ t) crlf = some n) : n ≤ y.length := by
  obtain ⟨-, a, x, hr, rfl⟩ := find_eq_some.mp h
  exact (FirstInfix.eq_some_iff.mp hr).2 y t rfl

/-- With a line end and many zeros behind `y`, what ends with a line end, and not behind the
zeros, ends in `y` or with it. -/
theorem chunk_end {y a : Bytes} {z : Nat} (hlen : a.length < y.length + 2 + z)
    (hzeros : List.replicate z 48 <+: t) (h : y ++ crlf ++ t = a ++ crlf ++ rest) :
    (∃ y', rest = y' ++ crlf ++ t ∧ y.length = a.length + 2 + y'.length) ∨
      rest = t ∧ y.length = a.length := by
  rw [List.append_assoc, List.append_assoc] at h
  obtain ⟨x, rfl, hx⟩ | ⟨x, rfl, hx⟩ := List.append_eq_append_iff.mp h
  · -- it would end behind `y`, among the zeros
    rcases x with _ | ⟨c, _ | ⟨d, x⟩⟩
    · exact .inr ⟨(List.append_cancel_left hx).symm, by simp⟩
    · simp [crlf] at hx
    · exfalso
      obtain ⟨t', rfl⟩ := hzeros
      simp only [crlf, List.cons_append, List.nil_append, List.cons.injEq] at hx
      simp only [List.length_append, List.length_cons] at hlen
      have hat := congrArg (fun l => l[x.length]?) hx.2.2
      simp only [List.getElem?_append_right (Nat.le_refl _), Nat.sub_self] at hat
      rw [List.getElem?_append_left (by rw [List.length_replicate]; omega),
        List.getElem?_replicate, if_pos (by omega)] at hat
      cases hat
  · rcases x with _ | ⟨c, _ | ⟨d, x⟩⟩
    · exact .inr ⟨List.append_cancel_left hx, by simp⟩
    · simp [crlf] at hx
    · simp only [crlf, List.cons_append, List.nil_append, List.cons.injEq] at hx
      refine .inl ⟨x, by simp [hx.2.2, crlf], ?_⟩
      simp only [List.length_append, List.length_cons]
      omega

/-- A message whose chunks go on like this, and behind which there is `more`, has fewer bytes than
so many behind those that it has. -/
def Below (p : HttpProtocol) (m : HttpMessage) (more buffer : Bytes) (k : Nat) : Prop :=
  ∀ body q message, q.state = .readingStartLine →
    Steps step (readingChunks p m body) buffer q more [message] →
    message.body.length < body.length + k

variable {k z : Nat}

theorem below_last (hchunked : isChunked m = true) (hlast : Spells last 0) :
    Below p m more (last ++ crlf ++ (crlf ++ more)) 1 := by
  intro body q message hq h
  have hsize := (hlast.headOf (by decide)).size_eq
  obtain ⟨chunk, rest, hc, hsteps⟩ | ⟨rest, hc, hsteps⟩ := round_of_steps hchunked h
  · obtain ⟨-, hsize', hpos⟩ := data_of_line hlast.find_eq hc
    rw [hsize] at hsize'
    rw [← Option.some.inj hsize'] at hpos
    exact absurd hpos (Nat.lt_irrefl 0)
  · rw [(trailer_of_steps (m := chunkedMessage m body) rfl hsteps).1]
    exact Nat.lt_succ_self _

/-- A chunk that is read adds its bytes. -/
theorem Below.small (h : Below p m more t k) (hchunked : isChunked m = true)
    (hspells : Spells c.1 c.2.length) (hne : c.2 ≠ []) (hlt : c.2.length < 2 ^ 32) :
    Below p m more (chunkWire c ++ t) (c.2.length + k) := by
  intro body q message hq hsteps
  have hsize := (hspells.headOf hlt).size_eq
  have hwire : chunkWire c ++ t = c.1 ++ crlf ++ (c.2 ++ crlf ++ t) := by
    simp only [chunkWire, List.append_assoc]
  rw [hwire] at hsteps
  obtain ⟨chunk, rest, hc, hsteps⟩ | ⟨rest, hc, hsteps⟩ := round_of_steps hchunked hsteps
  · obtain ⟨hrest, hsize', -⟩ := data_of_line hspells.find_eq hc
    have hlen : c.2.length = chunk.length := Option.some.inj (hsize.symm.trans hsize')
    rw [List.append_assoc, List.append_assoc] at hrest
    obtain ⟨rfl, hbehind⟩ := List.append_inj hrest hlen
    obtain rfl := List.append_cancel_left hbehind
    have hbelow := h (body ++ c.2) q message hq hsteps
    rw [List.length_append] at hbelow
    omega
  · obtain ⟨-, hsize'⟩ := last_of_line hspells.find_eq hc
    have hlen : c.2.length = 0 := Option.some.inj (hsize.symm.trans hsize')
    exact absurd (List.length_eq_zero_iff.mp hlen) hne

/-- If the chunks are read from `y`, the line of at least one of them is not in the body. -/
theorem Below.behind (h : Below p m more t (k + 1)) (hchunked : isChunked m = true)
    (hz : 2 ^ 32 ≤ z) (hzeros : List.replicate z 48 <+: t)
    (hlong : p.headerMaxSize + more.length < t.length) (y : Bytes) :
    Below p m more (y ++ crlf ++ t) (y.length + k) := by
  induction hn : y.length using Nat.strongRecOn generalizing y with
  | ind n ih =>
    subst hn
    intro body q message hq hsteps
    obtain ⟨chunk, rest, hc, hnext⟩ | ⟨rest, hc, hnext⟩ := round_of_steps hchunked hsteps
    · obtain ⟨head, hbuffer, hfind, hsize, -, -⟩ := readChunk_data hc
      have hhead := find_le_of_append hfind
      have hchunk := sscanfHex_lt hsize
      have hlen : (head ++ crlf ++ chunk).length = head.length + 2 + chunk.length := by
        rw [List.length_append, List.length_append, length_crlf]
      obtain ⟨y', rfl, hy⟩ | ⟨rfl, hy⟩ := chunk_end (by omega) hzeros hbuffer
      · have hbelow := ih y'.length (by omega) y' rfl (body ++ chunk) q message hq hnext
        rw [List.length_append] at hbelow
        omega
      · have hbelow := h (body ++ chunk) q message hq hnext
        rw [List.length_append] at hbelow
        omega
    · obtain ⟨head, hbuffer, hfind, -⟩ := readChunk_last hc
      have hhead := find_le_of_append hfind
      have hle := (trailer_of_steps (m := chunkedMessage m body) rfl hnext).2 hq
      have hlen := congrArg List.length hbuffer
      simp only [List.length_append, length_crlf] at hlen
      change rest.length ≤ p.headerMaxSize + more.length at hle
      omega

/-- A chunk of which only the first bytes are read loses some of its bytes. -/
theorem Below.large (h : Below p m more t (k + 1)) (hchunked : isChunked m = true)
    (hz : 2 ^ 32 ≤ z) (hzeros : List.replicate z 48 <+: t)
    (hlong : p.headerMaxSize + more.length < t.length)
    (hspells : Spells c.1 c.2.length) (hle : 2 ^ 32 ≤ c.2.length) :
    Below p m more (chunkWire c ++ t) (c.2.length + k) := by
  intro body q message hq hsteps
  have hwire : chunkWire c ++ t = c.1 ++ crlf ++ (c.2 ++ crlf ++ t) := by
    simp only [chunkWire, List.append_assoc]
  rw [hwire] at hsteps
  obtain ⟨chunk, rest, hc, hsteps⟩ | ⟨rest, hc, hsteps⟩ := round_of_steps hchunked hsteps
  · obtain ⟨hrest, hsize, -⟩ := data_of_line hspells.find_eq hc
    have hchunk := sscanfHex_lt hsize
    obtain ⟨y', rfl, hy⟩ | ⟨rfl, hy⟩ := chunk_end (by omega) hzeros hrest
    · have hbelow := h.behind hchunked hz hzeros hlong y' (body ++ chunk) q message hq hsteps
      rw [List.length_append] at hbelow
      omega
    · omega
  · obtain ⟨rfl, -⟩ := last_of_line hspells.find_eq hc
    have hle' := (trailer_of_steps (m := chunkedMessage m body) rfl hsteps).2 hq
    change (c.2 ++ crlf ++ t).length ≤ p.headerMaxSize + more.length at hle'
    rw [List.length_append] at hle'
    omega

theorem Below.mono (h : Below p m more t k) {k' : Nat} (hle : k ≤ k') : Below p m more t k' :=
  fun body q message hq hsteps => Nat.lt_of_lt_of_le (h body q message hq hsteps) (by omega)

/-- Zeros come first, before each chunk and in the end. -/
theorem zeros_prefix (hcs : ∀ c ∈ cs, List.replicate z 48 <+: c.1)
    (hzeros : List.replicate z 48 <+: last) (x : Bytes) :
    List.replicate z 48 <+: chunksWire cs ++ (last ++ x) := by
  cases cs with
  | nil => exact hzeros.trans (List.prefix_append _ _)
  | cons c cs =>
    rw [chunksWire_cons, chunkWire]
    simp only [List.append_assoc]
    exact (hcs c (.head _)).trans (List.prefix_append _ _)

/-- With many zeros before every size, no message has more bytes than the chunks have, and none
has as many if one of the chunks is too large. -/
theorem below_chunks (hchunked : isChunked m = true) (hz : 2 ^ 32 ≤ z)
    (hmax : p.headerMaxSize < 2 ^ 32)
    (hcs : ∀ c ∈ cs, Spells c.1 c.2.length ∧ c.2 ≠ [] ∧ List.replicate z 48 <+: c.1)
    (hlast : Spells last 0) (hzeros : List.replicate z 48 <+: last) :
    Below p m more (chunksWire cs ++ (last ++ crlf ++ (crlf ++ more)))
        ((cs.map Prod.snd).flatten.length + 1) ∧
      ((∃ c ∈ cs, 2 ^ 32 ≤ c.2.length) →
        Below p m more (chunksWire cs ++ (last ++ crlf ++ (crlf ++ more)))
          (cs.map Prod.snd).flatten.length) := by
  induction cs with
  | nil =>
    constructor
    · exact below_last hchunked hlast
    · rintro ⟨c, hc, -⟩
      cases hc
  | cons c cs ih =>
    obtain ⟨hspells, hne, -⟩ := hcs c (.head _)
    have hcs' : ∀ c ∈ cs, _ := fun c' hmem => hcs c' (.tail _ hmem)
    obtain ⟨ih₁, ih₂⟩ := ih hcs'
    have hfirst : List.replicate z 48 <+: chunksWire cs ++ (last ++ crlf ++ (crlf ++ more)) := by
      rw [List.append_assoc last]
      exact zeros_prefix (fun c' hmem => (hcs' c' hmem).2.2) hzeros _
    have hlong : p.headerMaxSize + more.length <
        (chunksWire cs ++ (last ++ crlf ++ (crlf ++ more))).length := by
      have hlen := hzeros.length_le
      rw [List.length_replicate] at hlen
      simp only [List.length_append, length_crlf]
      omega
    rw [chunksWire_cons, List.append_assoc, List.map_cons, List.flatten_cons, List.length_append]
    by_cases hle : 2 ^ 32 ≤ c.2.length
    · have hlarge := ih₁.large hchunked hz hfirst hlong hspells hle
      exact ⟨hlarge.mono (Nat.le_succ _), fun _ => hlarge⟩
    · have hlt : c.2.length < 2 ^ 32 := Nat.not_le.mp hle
      refine ⟨?_, fun ⟨c', hmem, hle'⟩ => ?_⟩
      · rw [Nat.add_assoc]
        exact ih₁.small hchunked hspells hne hlt
      · cases hmem with
        | head => exact absurd hle' hle
        | tail _ hmem => exact (ih₂ ⟨c', hmem, hle'⟩).small hchunked hspells hne hlt

/-- What is delivered of chunks with many zeros before every size is too short, if one of them is
too large. -/
theorem body_lt_of_ready (hbefore : Before p front m []) (hz : 2 ^ 32 ≤ z)
    (hmax : p.headerMaxSize < 2 ^ 32) (hwell : b.WellFormed) (hnone : b.fields = [])
    (hzeros : (∀ c ∈ b.chunks, List.replicate z 48 <+: c.1) ∧ List.replicate z 48 <+: b.last)
    (hlarge : ∃ c ∈ b.chunks, 2 ^ 32 ≤ c.2.length)
    (hpieces : pieces.flatten = front ++ b.raw ++ b.trailer ++ more)
    (hready : p.reset.await [] pieces = (.messageReady, q, more))
    (hstate : q.state = .finished message) : message.body.length < b.data.flatten.length := by
  obtain ⟨message', hstate', -, hsteps⟩ := steps_of_await_ready hready
  cases hstate.symm.trans hstate'
  have hflat : pieces.flatten =
      front ++ (chunksWire b.chunks ++ (b.last ++ crlf ++ (crlf ++ more))) := by
    rw [hpieces, ChunkedBody.raw, ChunkedBody.trailer, hnone, List.flatMap_nil, List.nil_append]
    simp only [List.append_assoc]
  rw [hflat] at hsteps
  obtain ⟨o, ho, hrest⟩ | ⟨o, ho, -⟩ := (hbefore.steps _).comparable hsteps
  · rw [List.nil_append] at ho
    subst ho
    have hcs : ∀ c ∈ b.chunks, Spells c.1 c.2.length ∧ c.2 ≠ [] ∧ List.replicate z 48 <+: c.1 :=
      fun c hc => ⟨(hwell.chunks c hc).1, (hwell.chunks c hc).2, hzeros.1 c hc⟩
    have hbelow := @below_chunks p m more b.chunks b.last z hbefore.isChunked hz hmax hcs hwell.last
      hzeros.2
    have hlt := hbelow.2 hlarge [] q.reset message rfl hrest
    rwa [List.length_nil, Nat.zero_add] at hlt
  · cases ho

/-- Any chunks can be written with any number of zeros before the sizes. -/
theorem exists_zeros {data : List Bytes} (hne : ∀ d ∈ data, d ≠ []) (z : Nat) :
    ∃ b : ChunkedBody, b.data = data ∧ b.WellFormed ∧ b.fields = [] ∧
      (∀ c ∈ b.chunks, List.replicate z 48 <+: c.1) ∧ List.replicate z 48 <+: b.last := by
  choose digits hdigits_ne hdigits hvalue using exists_xdigits
  have hspells : ∀ n, Spells (List.replicate z 48 ++ digits n) n := by
    intro n
    refine ⟨by simp [hdigits_ne n], fun c hc => ?_, ?_⟩
    · obtain hc | hc := List.mem_append.mp hc
      · rw [List.eq_of_mem_replicate hc]
        rfl
      · exact hdigits n c hc
    · rw [digitsValue_zeros, hvalue]
  refine ⟨⟨data.map fun d => (List.replicate z 48 ++ digits d.length, d),
    List.replicate z 48 ++ digits 0, []⟩, ?_, ⟨?_, hspells 0, nofun⟩, rfl, ?_,
    List.prefix_append _ _⟩
  · show (data.map _).map Prod.snd = data
    rw [List.map_map]
    exact List.map_id data
  · intro c hc
    obtain ⟨d, hd, rfl⟩ := List.mem_map.mp hc
    exact ⟨hspells _, hne d hd⟩
  · intro c hc
    obtain ⟨d, -, rfl⟩ := List.mem_map.mp hc
    exact List.prefix_append _ _

/-- A stream that comes at once fits a limit as long as it. -/
theorem fits_single {stream : Bytes} (hle : stream.length ≤ max) : Fits max front b [stream] := by
  intro qs piece rs hsplit _
  cases qs with
  | nil =>
    obtain ⟨rfl, -⟩ := List.cons.inj hsplit
    rw [List.flatten_nil, List.length_nil, Nat.zero_sub, present_zero, List.nil_append,
      List.flatten_cons, List.flatten_nil, List.append_nil]
    omega
  | cons q qs => simp at hsplit

/-- Chunks are not delivered with every spelling of their sizes if one of them is too large. -/
theorem small_of_delivered {data : List Bytes} (hne : ∀ d ∈ data, d ≠ [])
    (h : ChunksDelivered data) : ∀ d ∈ data, d.length < 2 ^ 32 := by
  by_contra hlarge
  push Not at hlarge
  obtain ⟨d, hd, hlarge⟩ := hlarge
  obtain ⟨z, hz⟩ : ∃ z, z = 2 ^ 32 := ⟨_, rfl⟩
  obtain ⟨b, rfl, hwell, hnone, hzeros⟩ := exists_zeros hne z
  obtain ⟨c, hc, rfl⟩ := List.mem_map.mp hd
  -- the whole stream at once, and a limit that allows it
  generalize hstream : chunkedOpening ++ b.raw ++ b.trailer ++ [] = stream
  have hpos : 0 < stream.length := by
    have hopening : 0 < chunkedOpening.length := by decide
    rw [← hstream, List.append_assoc, List.append_assoc, List.length_append]
    omega
  have hflat : [stream].flatten = chunkedOpening ++ b.raw ++ b.trailer ++ [] := by
    rw [hstream]
    simp
  have htrailer : b.trailer.length ≤ (construct.setBodyMaxSize stream.length).headerMaxSize := by
    rw [ChunkedBody.trailer, hnone, headerMaxSize_set]
    decide
  have hmax : (construct.setBodyMaxSize stream.length).headerMaxSize < 2 ^ 32 := by
    rw [headerMaxSize_set]
    decide
  obtain ⟨q, hready, hstate, hbody⟩ := h _ chunkedOpening chunkedRequest b [] [stream]
    (opening_chunkedRequest stream.length) (by decide) rfl hwell htrailer hflat
    (fits_single (Nat.le_of_eq (bodyMaxSize_set hpos).symm))
  have hlt := body_lt_of_ready (before_chunkedRequest stream.length) (Nat.le_of_eq hz.symm) hmax
    hwell hnone hzeros ⟨c, hc, hlarge⟩ hflat hready hstate
  rw [hbody] at hlt
  exact Nat.lt_irrefl _ hlt

/-! ## Chunks -/

/-- Chunks are delivered, with all that may be before, between and behind them, exactly if each of
them is smaller than four gigabytes. -/
theorem chunksDelivered_iff {data : List Bytes} (hne : ∀ d ∈ data, d ≠ []) :
    ChunksDelivered data ↔ ∀ d ∈ data, d.length < 2 ^ 32 :=
  ⟨small_of_delivered hne, delivered_of_small⟩

/-- Two chunks. -/
theorem chunksDelivered_iff_two : ChunksDelivered [bytes "abc", bytes "\r\n"] ↔
    ∀ d ∈ [bytes "abc", bytes "\r\n"], d.length < 2 ^ 32 :=
  chunksDelivered_iff (by decide)

/-- One chunk of four gigabytes is not delivered. -/
theorem not_chunksDelivered : ¬ ∀ data : List Bytes, (∀ d ∈ data, d ≠ []) → ChunksDelivered data := by
  intro h
  obtain ⟨n, hn⟩ : ∃ n, n = 2 ^ 32 := ⟨_, rfl⟩
  have hne : ∀ d ∈ [List.replicate n (97 : UInt8)], d ≠ [] := by
    intro d hd hnil
    have hlen := congrArg List.length hnil
    rw [List.mem_singleton.mp hd, List.length_replicate, List.length_nil] at hlen
    omega
  have hlt := small_of_delivered hne (h _ hne) _ (List.mem_singleton_self _)
  rw [List.length_replicate] at hlt
  omega

end HttpProtocol

end Brickred
