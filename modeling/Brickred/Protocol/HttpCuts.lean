import Brickred.Protocol.HttpFeed

/-!
# What cutting a stream of HTTP messages changes

`readBody` checks `chunk_buffer_->readableBytes() + buffer->readableBytes()` against
the limit on bodies when it begins to look at chunks. Besides the body so far, this
counts the framing of the chunks and all that has arrived behind the body, so that
the result depends on how much arrives at a time. Nothing else does: reading the
stream at once fails most easily, reading it byte by byte least easily, and the
result is the same for every way of cutting the stream if it is for these two.
-/

namespace Brickred

open Incremental

namespace HttpProtocol

/-- The messages that feeding the pieces delivers, and whether it ends with an
error. -/
def outcome (p : HttpProtocol) (pieces : List Bytes) : List HttpMessage × Bool :=
  ((feed p [] pieces).1, (feed p [] pieces).2.isNone)

/-- From the start of a message, the stream reads alike however it is cut. -/
def CutIndependent (p : HttpProtocol) (stream : Bytes) : Prop :=
  ∀ ps qs : List Bytes, ps.flatten = stream → qs.flatten = stream →
    outcome p.reset ps = outcome p.reset qs

/-- The rest of a chunked body that fails even when it is read byte by byte: by what
is in it or in its trailer, or since a chunk with its framing, and with the chunks
before it, exceeds the limit. -/
inductive BodyRejected : HttpProtocol → Bytes → Prop where
  | malformed {p b} : readChunk p.bodyMaxSize b = .failed → BodyRejected p b
  | unfinished {p b} : readChunk p.bodyMaxSize b = .more →
      p.bodyMaxSize < p.chunks.length + b.length → BodyRejected p b
  | dataTooLarge {p b chunk rest} : readChunk p.bodyMaxSize b = .data chunk rest →
      p.bodyMaxSize < p.chunks.length + (b.length - rest.length) → BodyRejected p b
  | data {p b chunk rest} : readChunk p.bodyMaxSize b = .data chunk rest →
      BodyRejected (p.appendChunk chunk) rest → BodyRejected p b
  | lastTooLarge {p b rest} : readChunk p.bodyMaxSize b = .last rest →
      p.bodyMaxSize < p.chunks.length + (b.length - rest.length) → BodyRejected p b
  | trailer {p b message rest} : p.state = .readingBody message →
      readChunk p.bodyMaxSize b = .last rest →
      ((p.beginTrailer message).readHeader true (chunkedMessage message p.chunks) rest).1 =
        .failed → BodyRejected p b

/-- If the stream, read at once, comes to a chunked body that begins too far from
the end, this body fails by itself. -/
def LargeBodiesRejected (p : HttpProtocol) (stream : Bytes) : Prop :=
  ∀ q rest messages, Steps guardedStep p.reset stream q rest messages →
    overLimit q rest = true → BodyRejected q rest

variable {p q : HttpProtocol} {b w x rest : Bytes} {ps : List Bytes} {message : HttpMessage}
  {messages : List HttpMessage} {r : Outcome UInt8 HttpProtocol Failure}

theorem step_chunked (hstate : q.state = .readingBody message) (hm : isChunked message = true)
    (b : Bytes) : step q b = ofChunk q message (readChunk q.bodyMaxSize b) := by
  simp [step, hstate, hm]

theorem overLimit_chunked (hstate : q.state = .readingBody message)
    (hm : isChunked message = true) (b : Bytes) :
    overLimit q b = true ↔ q.bodyMaxSize < q.chunks.length + b.length := by
  simp [overLimit, hstate, hm]

theorem chunked_of_overLimit (h : overLimit q b = true) :
    ∃ message, q.state = .readingBody message ∧ isChunked message = true := by
  unfold overLimit at h
  split at h
  · rename_i m hm
    simp only [Bool.and_eq_true] at h
    exact ⟨m, hm, h.1⟩
  · cases h

/-- A step by itself does not complain about the size of a body. -/
theorem step_halt {e : Failure} {s : HttpProtocol} (h : step q b = .halt e s messages) :
    e = .malformed ∧ messages = [] := by
  have hproceed : ∀ q rest, proceed q rest ≠ .halt e s messages := by
    intro q rest h
    unfold proceed at h
    split at h <;> cases h
  have hhandled : ∀ r, ofHandled q r = .halt e s messages → e = .malformed ∧ messages = [] := by
    rintro ⟨handled, q', rest⟩ h
    cases handled with
    | more => cases h
    | failed =>
      cases h
      exact ⟨rfl, rfl⟩
    | done => exact absurd h (hproceed _ _)
  unfold step at h
  split at h
  · exact hhandled _ h
  · exact hhandled _ h
  · split at h
    · rename_i m _ _
      cases hc : readChunk q.bodyMaxSize b <;> rw [hc] at h <;> cases h
      exact ⟨rfl, rfl⟩
    · exact hhandled _ h
  · exact hhandled _ h
  · cases h
    exact ⟨rfl, rfl⟩
  · cases h
    exact ⟨rfl, rfl⟩

theorem step_trailer (hstate : q.state = .readingTrailerHeader message) (b : Bytes) :
    step q b = ofHandled q (q.readHeader true message b) := by
  simp [step, hstate]

/-! ## A body that fails by itself -/

/-- A trailer that fails does so however it is cut. -/
theorem feeds_trailer_failed (hstate : q.state = .readingTrailerHeader message)
    (hfailed : (q.readHeader true message (b ++ ps.flatten)).1 = .failed)
    (h : Feeds guardedStep q [] (b :: ps) messages r) :
    messages = [] ∧ r.waiting? = none := by
  have hstep : step q (b ++ ps.flatten) = .halt .malformed q [] := by
    rw [step_trailer hstate]
    revert hfailed
    generalize q.readHeader true message (b ++ ps.flatten) = read
    rintro hfailed
    obtain ⟨handled, rest⟩ := read
    cases hfailed
    rfl
  have hover : overLimit q (b ++ ps.flatten) = false := by simp [overLimit, hstate]
  have hrun := h.guarded_stop step_stable trivial overLimit_mono hover (by simp [hstep])
  obtain ⟨rfl, rfl⟩ := hrun.unique (.halt ((guarded_eq hover).trans hstep))
  exact ⟨rfl, rfl⟩

theorem ofChunk_next {chunk : Chunk} {s : HttpProtocol}
    (h : ofChunk q message chunk = .next s rest messages) :
    messages = [] ∧ ((∃ data, chunk = .data data rest ∧ s = q.appendChunk data) ∨
      chunk = .last rest ∧ s = q.beginTrailer message) := by
  cases chunk with
  | more => cases h
  | failed => cases h
  | data data rest' =>
    cases h
    exact ⟨rfl, .inl ⟨data, rfl, rfl⟩⟩
  | last rest' =>
    cases h
    exact ⟨rfl, .inr ⟨rfl, rfl⟩⟩

/-- What comes first of feeding the rest of a chunked body: it fails, the pieces end
before the chunk does, or the chunk is taken, which is within the limit. -/
theorem feeds_chunk (hstate : q.state = .readingBody message) (hm : isChunked message = true)
    (hw : b ++ ps.flatten = w) (h : Feeds guardedStep q [] (b :: ps) messages r) :
    (messages = [] ∧ r.waiting? = none) ∨
    (readChunk q.bodyMaxSize w = .more ∧ q.chunks.length + w.length ≤ q.bodyMaxSize) ∨
    ∃ s rest b' qs, ofChunk q message (readChunk q.bodyMaxSize w) = .next s rest [] ∧
      q.chunks.length + (w.length - rest.length) ≤ q.bodyMaxSize ∧ b' ++ qs.flatten = rest ∧
      Feeds guardedStep s [] (b' :: qs) messages r := by
  have hle : ∀ b, overLimit q b = false → q.chunks.length + b.length ≤ q.bodyMaxSize := by
    intro b hb
    by_contra hgt
    rw [(overLimit_chunked hstate hm b).mpr (by omega)] at hb
    cases hb
  obtain ⟨b₁, x, hb₁, -, rfl, rfl⟩ | ⟨hover, hwait, -⟩ | ⟨b₁, x, e, s, hb₁, -, hhalt, rfl⟩ |
    ⟨b₁, qs, s, rest₁, o, out₂, hb₁, hover, hnext, rfl, hrest⟩ := h.guarded_cases
  · exact .inl ⟨rfl, rfl⟩
  · rw [hw] at hover hwait
    rw [step_chunked hstate hm] at hwait
    refine .inr (.inl ⟨?_, hle w hover⟩)
    cases hc : readChunk q.bodyMaxSize w with
    | more => rfl
    | _ =>
      rw [hc] at hwait
      cases hwait
  · exact .inl ⟨(step_halt hhalt).2, rfl⟩
  · have hnext' := step_stable.next (x := qs.flatten) trivial hnext
    rw [hb₁, hw, step_chunked hstate hm] at hnext'
    obtain ⟨rfl, -⟩ := ofChunk_next hnext'
    refine .inr (.inr ⟨s, rest₁ ++ qs.flatten, rest₁, qs, hnext', ?_, rfl, hrest⟩)
    have hlen := congrArg List.length (hb₁.trans hw)
    have := hle b₁ hover
    simp only [List.length_append] at hlen ⊢
    omega

/-- A body that fails by itself fails however it is cut. -/
theorem feeds_rejected (hrejected : BodyRejected q w)
    (hstate : q.state = .readingBody message) (hm : isChunked message = true)
    (hw : b ++ ps.flatten = w) (h : Feeds guardedStep q [] (b :: ps) messages r) :
    messages = [] ∧ r.waiting? = none := by
  induction hrejected generalizing b ps with
  | malformed hc =>
    obtain hfail | ⟨hmore, -⟩ | ⟨s, rest, b', qs, hnext, -⟩ := feeds_chunk hstate hm hw h
    · exact hfail
    · cases hc.symm.trans hmore
    · rw [hc] at hnext
      cases hnext
  | unfinished hc hgt =>
    obtain hfail | ⟨-, hle⟩ | ⟨s, rest, b', qs, hnext, -⟩ := feeds_chunk hstate hm hw h
    · exact hfail
    · omega
    · rw [hc] at hnext
      cases hnext
  | dataTooLarge hc hgt | lastTooLarge hc hgt =>
    obtain hfail | ⟨hmore, -⟩ | ⟨s, rest, b', qs, hnext, hle, -⟩ := feeds_chunk hstate hm hw h
    · exact hfail
    · cases hc.symm.trans hmore
    · rw [hc] at hnext
      cases hnext
      omega
  | data hc _ ih =>
    obtain hfail | ⟨hmore, -⟩ | ⟨s, rest, b', qs, hnext, -, hrest, hfeeds⟩ :=
      feeds_chunk hstate hm hw h
    · exact hfail
    · cases hc.symm.trans hmore
    · rw [hc] at hnext
      cases hnext
      exact ih hstate hrest hfeeds
  | trailer hstate' hc hfailed =>
    obtain hfail | ⟨hmore, -⟩ | ⟨s, rest, b', qs, hnext, -, rfl, hfeeds⟩ :=
      feeds_chunk hstate hm hw h
    · exact hfail
    · cases hc.symm.trans hmore
    · rw [hc] at hnext
      cases hnext
      cases hstate.symm.trans hstate'
      exact feeds_trailer_failed rfl hfailed hfeeds

/-! ## A body that does not fail by itself -/

theorem chunks_le_of_not_rejected (h : ¬ BodyRejected q w) : q.chunks.length ≤ q.bodyMaxSize := by
  by_contra hgt
  refine h ?_
  cases hc : readChunk q.bodyMaxSize w with
  | more => exact .unfinished hc (by omega)
  | failed => exact .malformed hc
  | data chunk rest => exact .dataTooLarge hc (by omega)
  | last rest => exact .lastTooLarge hc (by omega)

/-- A chunk that is not yet there ends in the input to come. -/
theorem length_lt_of_more {max : Nat} (hb : readChunk max b = .more) (x rest : Bytes) :
    (∀ chunk, readChunk max (b ++ x) = .data chunk rest → rest.length < x.length) ∧
      (readChunk max (b ++ x) = .last rest → rest.length < x.length) := by
  have hused : ∀ {used : Bytes}, readChunk max used ≠ .more → b ++ x = used ++ rest →
      rest.length < x.length := by
    intro used hne happ
    by_contra hge
    obtain ⟨z, rfl⟩ : used <+: b := by
      refine List.prefix_of_prefix_length_le (List.prefix_append used rest) ?_ ?_
      · rw [← happ]
        exact List.prefix_append b x
      · have hlen := congrArg List.length happ
        simp only [List.length_append] at hlen
        omega
    rw [readChunk_append hne z] at hb
    cases hc : readChunk max used <;> rw [hc] at hb hne <;> first | exact hne rfl | cases hb
  constructor
  · intro chunk h
    obtain ⟨used, happ, hread⟩ := readChunk_used.1 chunk h
    exact hused (by simp [hread]) happ
  · intro h
    obtain ⟨used, happ, hread⟩ := readChunk_used.2 h
    exact hused (by simp [hread]) happ

/-- The next byte of a body that does not fail by itself is within the limit. -/
theorem length_le_of_not_rejected {c : UInt8} (hb : readChunk q.bodyMaxSize b = .more)
    (h : ¬ BodyRejected q (b ++ c :: w)) :
    q.chunks.length + (b ++ [c]).length ≤ q.bodyMaxSize := by
  by_contra hgt
  rw [List.length_append, List.length_singleton] at hgt
  have hlt := length_lt_of_more hb (c :: w)
  have hlen : (b ++ c :: w).length = b.length + (w.length + 1) := by
    rw [List.length_append, List.length_cons]
  refine h ?_
  cases hc : readChunk q.bodyMaxSize (b ++ c :: w) with
  | more => exact .unfinished hc (by omega)
  | failed => exact .malformed hc
  | data chunk rest =>
    have hrest := (hlt rest).1 chunk hc
    rw [List.length_cons] at hrest
    exact .dataTooLarge hc (by omega)
  | last rest =>
    have hrest := (hlt rest).2 hc
    rw [List.length_cons] at hrest
    exact .lastTooLarge hc (by omega)

/-- A trailer that does not fail is read or waited for. -/
theorem feeds_trailer (hstate : q.state = .readingTrailerHeader message)
    (hfailed : (q.readHeader true message (b ++ ps.flatten)).1 ≠ .failed)
    (h : Feeds guardedStep q [] (b :: ps) messages r) :
    messages ≠ [] ∨ r.waiting? ≠ none := by
  have hover : overLimit q (b ++ ps.flatten) = false := by simp [overLimit, hstate]
  have hstep := step_trailer hstate (b ++ ps.flatten)
  obtain ⟨⟨handled, q', rest⟩, hread⟩ :
    ∃ read, q.readHeader true message (b ++ ps.flatten) = read := ⟨_, rfl⟩
  rw [hread] at hstep hfailed
  cases handled with
  | failed => exact absurd rfl hfailed
  | more =>
    have hrun := h.guarded_stop step_stable trivial overLimit_mono hover (by simp [hstep, ofHandled])
    obtain ⟨-, rfl⟩ := hrun.unique (.wait ((guarded_eq hover).trans hstep))
    exact .inr (by rintro ⟨⟩)
  | done =>
    obtain ⟨⟨m, hm⟩ | ⟨htrailer, -⟩, -⟩ := readHeader_done hread
    · have hnext : step q (b ++ ps.flatten) = .next q'.reset rest [m] := by
        rw [hstep]
        simp [ofHandled, proceed, hm]
      obtain ⟨b', qs, out₂, -, rfl, -⟩ :=
        h.guarded_next step_stable trivial overLimit_mono hover hnext
      exact .inl (by simp)
    · cases htrailer

/-- Byte by byte, a body that does not fail by itself is read or waited for. -/
theorem feeds_bytes (hstate : q.state = .readingBody message) (hm : isChunked message = true)
    (hb : readChunk q.bodyMaxSize b = .more) (hrejected : ¬ BodyRejected q (b ++ w))
    (h : Feeds guardedStep q b (w.map fun c => [c]) messages r) :
    messages ≠ [] ∨ r.waiting? ≠ none := by
  induction w generalizing q b messages with
  | nil =>
    cases h
    exact .inr nofun
  | cons c w ih =>
    have happ : b ++ c :: w = b ++ [c] ++ w := by rw [List.append_assoc, List.singleton_append]
    have hover : overLimit q (b ++ [c]) = false := by
      by_contra ht
      have hgt := (overLimit_chunked hstate hm _).mp (by simpa using ht)
      have := length_le_of_not_rejected hb hrejected
      omega
    have hg := (guardedStep_eq hover).trans (step_chunked hstate hm _)
    have hlt := length_lt_of_more hb [c]
    have hwhole := fun hne : readChunk q.bodyMaxSize (b ++ [c]) ≠ .more => readChunk_append hne w
    rw [List.map_cons, feeds_cons_iff] at h
    rw [happ] at hrejected
    cases hc : readChunk q.bodyMaxSize (b ++ [c]) with
    | more =>
      rw [hc] at hg
      exact ih hstate hc hrejected ((feeds_wait_iff hg).mp h)
    | failed =>
      rw [hc] at hwhole
      exact absurd (.malformed (hwhole nofun)) hrejected
    | data chunk rest =>
      rw [hc] at hwhole hg
      obtain rfl : rest = [] := List.length_eq_zero_iff.mp (Nat.lt_one_iff.mp ((hlt rest).1 chunk hc))
      obtain ⟨out₂, rfl, hrest⟩ := (feeds_next_iff hg).mp h
      have hrejected' : ¬ BodyRejected (q.appendChunk chunk) ([] ++ w) := fun hr =>
        hrejected (.data (hwhole nofun) hr)
      have hover' : overLimit (q.appendChunk chunk) [] = false := by
        by_contra ht
        have hgt := (overLimit_chunked (q := q.appendChunk chunk) hstate hm []).mp (by simpa using ht)
        have := chunks_le_of_not_rejected hrejected'
        rw [List.length_nil] at hgt
        omega
      have hwait := (guardedStep_eq hover').trans
        (step_chunked (q := q.appendChunk chunk) hstate hm [])
      exact ih (q := q.appendChunk chunk) hstate rfl hrejected' ((feeds_wait_iff hwait).mp hrest)
    | last rest =>
      rw [hc] at hwhole hg
      obtain rfl : rest = [] := List.length_eq_zero_iff.mp (Nat.lt_one_iff.mp ((hlt rest).2 hc))
      obtain ⟨out₂, rfl, hrest⟩ := (feeds_next_iff hg).mp h
      refine feeds_trailer (q := q.beginTrailer message) rfl (fun hfailed => ?_) hrest
      refine hrejected (.trailer hstate (hwhole nofun) ?_)
      have hflat : (w.map fun c => [c]).flatten = w := by
        rw [← List.flatMap_def]
        simp
      rwa [hflat] at hfailed

/-! ## The stream as a whole -/

theorem step_nil_reset (p : HttpProtocol) : guardedStep p.reset [] = .wait := rfl

/-- What feeding any pieces does, as feeding them to a reader that has no input yet. -/
theorem outcome_feeds (p : HttpProtocol) (ps : List Bytes) :
    ∃ messages r, Feeds guardedStep p.reset [] ([] :: ps) messages r ∧
      outcome p.reset ps = (messages, r.waiting?.isNone) := by
  obtain ⟨r, hfeeds, hr⟩ := @feed_feeds p.reset [] trivial ps
  exact ⟨_, r, (feeds_wait_iff (step_nil_reset p)).mpr hfeeds, by rw [outcome, hr]⟩

/-- The messages before a chunked body that fails by itself are what every way of
cutting the stream delivers. -/
theorem outcome_rejected (hsteps : Steps guardedStep p.reset w q rest messages)
    (hover : overLimit q rest = true) (hrejected : BodyRejected q rest) (hps : ps.flatten = w) :
    outcome p.reset ps = (messages, true) := by
  obtain ⟨all, r, hfeeds, hout⟩ := outcome_feeds p ps
  obtain ⟨-, b', qs, out₂, hrest, rfl, hfeeds'⟩ := hfeeds.guarded_steps step_stable trivial
    overLimit_mono hsteps (by rw [List.nil_append, hps])
  obtain ⟨m, hstate, hm⟩ := chunked_of_overLimit hover
  obtain ⟨rfl, hr⟩ := feeds_rejected hrejected hstate hm hrest hfeeds'
  rw [hout, hr, List.append_nil]
  rfl

/-- Reading byte by byte from a body that does not fail by itself. -/
theorem outcome_not_rejected (hsteps : Steps guardedStep p.reset w q rest messages)
    (hover : overLimit q rest = true) (hrejected : ¬ BodyRejected q rest) :
    ∃ ps : List Bytes, ps.flatten = w ∧ outcome p.reset ps ≠ (messages, true) := by
  obtain ⟨m, hstate, hm⟩ := chunked_of_overLimit hover
  obtain ⟨used, rfl, hused⟩ := hsteps.used step_stable step_used overLimit_mono
  have hflat : (rest.map fun c => [c]).flatten = rest := by
    rw [← List.flatMap_def]
    simp
  refine ⟨used :: rest.map fun c => [c], by rw [List.flatten_cons, hflat], fun hout => ?_⟩
  obtain ⟨all, r, hfeeds, hout'⟩ := outcome_feeds p (used :: rest.map fun c => [c])
  rw [feeds_wait_cons_iff (step_nil_reset p), List.nil_append] at hfeeds
  obtain ⟨out₂, rfl, hfeeds'⟩ := hused.feeds hfeeds
  have hover' : overLimit q [] = false := by
    by_contra ht
    have hgt := (overLimit_chunked hstate hm []).mp (by simpa using ht)
    have := chunks_le_of_not_rejected hrejected
    rw [List.length_nil] at hgt
    omega
  have hwait := (guardedStep_eq hover').trans (step_chunked hstate hm [])
  obtain ⟨hmessages, hnone⟩ := Prod.mk.inj (hout'.symm.trans hout)
  obtain hne | hne :=
    feeds_bytes hstate hm rfl (by rwa [List.nil_append]) ((feeds_wait_iff hwait).mp hfeeds')
  · exact hne (by simpa using hmessages)
  · exact hne (Option.isNone_iff_eq_none.mp hnone)

/-- The way a stream is cut makes no difference exactly if its large chunked bodies,
if it has any, fail by themselves. -/
theorem cutIndependent_iff (p : HttpProtocol) (stream : Bytes) :
    CutIndependent p stream ↔ LargeBodiesRejected p stream := by
  constructor
  · intro hcut q rest messages hsteps hover
    by_contra hrejected
    obtain ⟨ps, hps, hne⟩ := outcome_not_rejected hsteps hover hrejected
    -- read at once, the stream fails at this body
    obtain ⟨all, r, hfeeds, hout⟩ := outcome_feeds p [stream]
    rw [feeds_wait_cons_iff (step_nil_reset p), List.nil_append, feeds_single_iff] at hfeeds
    obtain ⟨rfl, rfl⟩ := hfeeds.unique (hsteps.runs (.halt (guarded_over hover)))
    rw [List.append_nil] at hout
    exact hne ((hcut ps [stream] hps (by simp)).trans hout)
  · intro hlarge ps qs hps hqs
    obtain ⟨all, r, hfeeds, hout⟩ := outcome_feeds p [stream]
    rw [feeds_wait_cons_iff (step_nil_reset p), List.nil_append, feeds_single_iff] at hfeeds
    by_cases htrip : ∃ s, r = .halted .bodyTooLarge s
    · obtain ⟨s, rfl⟩ := htrip
      obtain ⟨q, rest, messages, o, hsteps, hhalt, -⟩ := hfeeds.steps_halt
      have hover : overLimit q rest = true := by
        by_contra hover
        have hstep := (guardedStep_eq (by simpa using hover)).symm.trans hhalt
        cases (step_halt hstep).1
      have hrejected := hlarge q rest messages hsteps hover
      rw [outcome_rejected hsteps hover hrejected hps,
        outcome_rejected hsteps hover hrejected hqs]
    · -- the check stops no way of reading that reads less at a time
      have hany : ∀ ps : List Bytes, ps.flatten = stream →
          outcome p.reset ps = (all, r.waiting?.isNone) := by
        intro ps hps
        obtain ⟨all', r', hfeeds', hout'⟩ := outcome_feeds p ps
        obtain ⟨rfl, rfl⟩ := hfeeds'.guarded_runs step_stable trivial overLimit_mono hfeeds
          (fun s hs => htrip ⟨s, hs⟩) (by rw [List.nil_append, hps])
        exact hout'
      rw [hany ps hps, hany qs hqs]

/-- A limit of ten bytes, and a body of one byte that takes eleven bytes on the wire:
at once it fails, in two pieces it does not. -/
theorem not_cutIndependent : ¬ CutIndependent (construct.setBodyMaxSize 10)
    (bytes "GET / HTTP/1.1\r\nTransfer-Encoding: chunked\r\n\r\n1\r\na\r\n0\r\n\r\n") := by
  intro h
  have hfail := h
    [bytes "GET / HTTP/1.1\r\nTransfer-Encoding: chunked\r\n\r\n1\r\na\r\n0\r\n\r\n"]
    [bytes "GET / HTTP/1.1\r\nTransfer-Encoding: chunked\r\n\r\n1\r\na\r\n",
      bytes "0\r\n\r\n"]
    (by decide) (by decide)
  have hsecond := congrArg Prod.snd hfail
  revert hsecond
  decide

end HttpProtocol

end Brickred
