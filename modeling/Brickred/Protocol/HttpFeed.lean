import Brickred.Protocol.HttpReader

/-!
# Feeding an `HttpProtocol`

`feed` is a caller that appends pieces to the input buffer and after each calls
`recvMessage`, retrieving complete messages, until it waits or fails. It does what
the reader does: the loops of `recvMessage` and `readBody` are runs of its steps.
-/

namespace Brickred

open Incremental
open StringUtil (find find_le)

namespace HttpProtocol

/-- `retrieveRequest`, and `retrieveResponse` if there is no request. -/
def retrieveAny (p : HttpProtocol) : Option HttpMessage × HttpProtocol :=
  match p.retrieveRequest with
  | (some message, p) => (some message, p)
  | (none, p) => p.retrieveResponse

/-- `recvMessage` and retrieval until the protocol waits, with the state and the
bytes left, or fails. Every message but the first takes bytes. -/
def receive : Nat → HttpProtocol → Bytes → List HttpMessage × Option (HttpProtocol × Bytes)
  | 0, p, buffer => ([], some (p, buffer))
  | fuel + 1, p, buffer =>
    match p.recvMessage buffer with
    | (.waitingMoreData, p, buffer) => ([], some (p, buffer))
    | (.error, _, _) => ([], none)
    | (.messageReady, p, buffer) =>
      match p.retrieveAny with
      | (some message, p) => ((receive fuel p buffer).1.cons message, (receive fuel p buffer).2)
      | (none, _) => ([], none)

/-- The pieces of a stream, appended one after another. -/
def feed (p : HttpProtocol) (buffer : Bytes) :
    List Bytes → List HttpMessage × Option (HttpProtocol × Bytes)
  | [] => ([], some (p, buffer))
  | piece :: pieces =>
    match receive ((buffer ++ piece).length + 2) p (buffer ++ piece) with
    | (messages, none) => (messages, none)
    | (messages, some (p, buffer)) =>
      let rest := feed p buffer pieces
      (messages ++ rest.1, rest.2)

variable {p q : HttpProtocol} {buffer rest : Bytes} {message : HttpMessage}

/-! ## It is a run of the reader -/

/-- The protocol is reading a message, and has a chunk buffer if the body needs
one. This is how `recvMessage` leaves it when it waits. -/
def Reading (p : HttpProtocol) : Prop :=
  match p.state with
  | .finished _ | .pendingError => False
  | .readingBody message => isChunked message = true → p.chunkBuffer.isSome = true
  | _ => True

/-- How far a message is, to the four statuses it passes. -/
def statusesLeft : HttpState → Nat
  | .readingStartLine => 4
  | .readingHeader _ => 3
  | .readingBody _ => 2
  | .readingTrailerHeader _ => 1
  | .finished _ | .pendingError => 0

/-- What a handler's result says about the reader: it waits there, it halts, or it
goes on from there. -/
def Reads (p : HttpProtocol) (buffer : Bytes) : Handled × HttpProtocol × Bytes → Prop
  | (.more, q, rest) => Runs guardedStep p buffer [] (.waiting q rest) ∧ Reading q
  | (.failed, _, _) => ∃ e q, Runs guardedStep p buffer [] (.halted e q)
  | (.done, q, rest) => ∃ s out, proceed q rest = .next s rest out ∧
      Steps guardedStep p buffer s rest out

theorem Reads.of_step (hp : Reading p) (hover : overLimit p buffer = false)
    {r : Handled × HttpProtocol × Bytes} (hmore : r.1 = .more → r.2 = (p, buffer))
    (h : step p buffer = ofHandled p r) : Reads p buffer r := by
  have hg := (guardedStep_eq hover).trans h
  obtain ⟨handled, q, rest⟩ := r
  cases handled with
  | more =>
    obtain ⟨rfl, rfl⟩ := Prod.mk.inj (hmore rfl)
    exact ⟨.wait hg, hp⟩
  | failed => exact ⟨_, _, .halt hg⟩
  | done =>
    have hnext : ∃ s out, proceed q rest = .next s rest out := by
      unfold proceed
      split <;> exact ⟨_, _, rfl⟩
    obtain ⟨s, out, hs⟩ := hnext
    exact ⟨s, out, hs, .one (hg.trans hs)⟩

/-- The loop over chunks, once the check is passed. -/
theorem reads_readChunks (hm : isChunked message = true) (fuel : Nat)
    (hfuel : buffer.length < fuel) (hstate : p.state = .readingBody message)
    (hsome : p.chunkBuffer.isSome = true)
    (hle : p.chunks.length + buffer.length ≤ p.bodyMaxSize) :
    Reads p buffer (readChunks message fuel p buffer) := by
  induction fuel generalizing p buffer with
  | zero => omega
  | succ fuel ih =>
    have hover : overLimit p buffer = false := by
      simp [overLimit, hstate, hm, hle]
    have hstep : step p buffer = ofChunk p message (readChunk p.bodyMaxSize buffer) := by
      simp [step, hstate, hm]
    have hg := (guardedStep_eq hover).trans hstep
    unfold readChunks
    cases hc : readChunk p.bodyMaxSize buffer with
    | more =>
      rw [hc] at hg
      exact ⟨.wait hg, by simp [Reading, hstate, hsome]⟩
    | failed =>
      rw [hc] at hg
      exact ⟨_, _, .halt hg⟩
    | last rest =>
      rw [hc] at hg
      exact ⟨_, _, rfl, .one hg⟩
    | data chunk rest =>
      rw [hc] at hg
      obtain ⟨head, hbuffer, -⟩ := readChunk_data hc
      have hlen := congrArg List.length hbuffer
      simp only [List.length_append, length_crlf] at hlen
      have hrest : Reads (p.appendChunk chunk) rest
          (readChunks message fuel (p.appendChunk chunk) rest) := by
        refine ih (by omega) hstate rfl ?_
        show (p.chunks ++ chunk).length + rest.length ≤ p.bodyMaxSize
        rw [List.length_append]
        omega
      dsimp only
      revert hrest
      generalize readChunks message fuel (p.appendChunk chunk) rest = r
      obtain ⟨handled, q, rest'⟩ := r
      cases handled with
      | more => exact fun ⟨hrun, hq⟩ => ⟨.next hg hrun, hq⟩
      | failed => exact fun ⟨e, q, hrun⟩ => ⟨e, q, .next hg hrun⟩
      | done => exact fun ⟨s, out, hs, hsteps⟩ => ⟨s, out, hs, .next hg hsteps⟩

theorem openChunkBuffer_of_isSome (h : p.chunkBuffer.isSome = true) : p.openChunkBuffer = p := by
  obtain ⟨body, hbody⟩ := Option.isSome_iff_exists.mp h
  show { p with chunkBuffer := some (p.chunkBuffer.getD []) } = p
  rw [hbody]
  cases p
  cases hbody
  rfl

/-- A chunked body, up to the check on its size. -/
theorem readBody_chunked (hm : isChunked message = true) (p : HttpProtocol) (buffer : Bytes) :
    p.readBody message buffer =
      if p.openChunkBuffer.chunks.length + buffer.length > p.bodyMaxSize then
        (.failed, p.openChunkBuffer, buffer)
      else
        readChunks message (buffer.length + 1) p.openChunkBuffer buffer := by
  obtain ⟨hhas, hcontain⟩ : message.hasHeader (bytes "Content-Length") = false ∧
      message.headerContain (bytes "Transfer-Encoding") (bytes "chunked") = true := by
    simpa [isChunked] using hm
  unfold readBody
  simp only [hhas, hcontain, if_true, Bool.false_eq_true, if_false]
  rfl

/-- Every handler reads as the reader does. -/
theorem reads_handle (hp : Reading p) {r : Handled × HttpProtocol × Bytes}
    (h : p.handle buffer = some r) : Reads p buffer r := by
  unfold handle at h
  have hover : (∀ message, p.state ≠ .readingBody message) → overLimit p buffer = false := by
    intro hne
    unfold overLimit
    split
    · rename_i m hm
      exact absurd hm (hne m)
    · rfl
  cases hstate : p.state with
  | readingStartLine =>
    rw [hstate] at h
    cases h
    refine Reads.of_step hp (hover (by simp [hstate])) ?_ (by simp [step, hstate])
    have hread := handled_startLine p buffer
    generalize p.readStartLine buffer = r at hread
    cases hread <;> simp
  | readingHeader m =>
    rw [hstate] at h
    cases h
    refine Reads.of_step hp (hover (by simp [hstate])) readHeader_more (by simp [step, hstate])
  | readingTrailerHeader m =>
    rw [hstate] at h
    cases h
    refine Reads.of_step hp (hover (by simp [hstate])) readHeader_more (by simp [step, hstate])
  | finished m => simp [hstate] at h
  | pendingError => simp [hstate] at h
  | readingBody m =>
    rw [hstate] at h
    cases h
    by_cases hm : isChunked m = true
    · have hsome : p.chunkBuffer.isSome = true := by
        simpa [Reading, hstate, hm] using hp
      rw [readBody_chunked hm, openChunkBuffer_of_isSome hsome]
      split
      · rename_i hgt
        exact ⟨_, _, .halt (guarded_over (by simp [overLimit, hstate, hm, hgt]))⟩
      · exact reads_readChunks hm _ (Nat.lt_succ_self _) hstate hsome (by omega)
    · have hover' : overLimit p buffer = false := by simp [overLimit, hstate, hm]
      refine Reads.of_step hp hover' ?_ (by simp [step, hstate, hm])
      exact readBody_more (by simpa using hm)

@[simp] theorem state_opened (p : HttpProtocol) : p.opened.state = p.state := by
  unfold opened
  split
  · split <;> rfl
  · rfl

theorem opened_of_reading (h : Reading p) : p.opened = p := by
  unfold opened
  split
  · rename_i m hm
    split
    · rename_i hchunked
      refine openChunkBuffer_of_isSome ?_
      simpa [Reading, hm, hchunked] using h
    · rfl
  · rfl

/-- `readBody` allocates the chunk buffer itself. -/
theorem handle_opened (p : HttpProtocol) (buffer : Bytes) :
    p.opened.handle buffer = p.handle buffer := by
  unfold opened
  split
  · rename_i m hm
    split
    · rename_i hchunked
      have hstate : p.openChunkBuffer.state = .readingBody m := hm
      unfold handle
      rw [hm, hstate]
      dsimp only
      rw [readBody_chunked hchunked, readBody_chunked hchunked, openChunkBuffer_of_isSome rfl]
      rfl
    · rfl
  · rfl

theorem readChunks_done (fuel : Nat)
    (h : readChunks message fuel p buffer = (.done, q, rest)) :
    (∃ m, q.state = .readingTrailerHeader m) ∧ rest.length ≤ buffer.length := by
  induction fuel generalizing p buffer with
  | zero => cases h
  | succ fuel ih =>
    unfold readChunks at h
    cases hc : readChunk p.bodyMaxSize buffer with
    | more => simp [hc] at h
    | failed => simp [hc] at h
    | data chunk rest' =>
      rw [hc] at h
      obtain ⟨head, hbuffer, -⟩ := readChunk_data hc
      have hlen := congrArg List.length hbuffer
      simp only [List.length_append] at hlen
      obtain ⟨hm, hle⟩ := ih h
      exact ⟨hm, by omega⟩
    | last rest' =>
      rw [hc] at h
      obtain ⟨head, hbuffer, -⟩ := readChunk_last hc
      have hlen := congrArg List.length hbuffer
      simp only [List.length_append] at hlen
      cases h
      exact ⟨⟨_, rfl⟩, by omega⟩

theorem readHeader_done {trailer : Bool}
    (h : p.readHeader trailer message buffer = (.done, q, rest)) :
    ((∃ m, q.state = .finished m) ∨ trailer = false ∧ ∃ m, q.state = .readingBody m) ∧
      rest.length ≤ buffer.length := by
  have hread := handled_header p trailer message buffer
  rw [h] at hread
  cases hread with
  | bare => exact ⟨.inl ⟨_, rfl⟩, by simp⟩
  | block =>
    refine ⟨?_, by simp⟩
    cases trailer with
    | true => exact .inl ⟨_, rfl⟩
    | false => exact .inr ⟨rfl, _, rfl⟩

/-- A handler that is done has brought the message further. -/
theorem handle_done (h : p.handle buffer = some (.done, q, rest)) :
    statusesLeft q.state < statusesLeft p.state ∧ q.state ≠ .pendingError ∧
      rest.length ≤ buffer.length ∧
      (p.state = .readingStartLine → rest.length < buffer.length) := by
  unfold handle at h
  cases hstate : p.state with
  | readingStartLine =>
    rw [hstate] at h
    have hread := handled_startLine p buffer
    rw [Option.some.inj h] at hread
    cases hread with
    | done hfind =>
      have hle := find_le hfind
      rw [length_crlf] at hle
      refine ⟨by simp [statusesLeft], by simp, by simp, fun _ => ?_⟩
      rw [List.length_drop]
      omega
  | readingHeader m =>
    rw [hstate] at h
    obtain ⟨⟨m', hm'⟩ | ⟨-, m', hm'⟩, hle⟩ := readHeader_done (Option.some.inj h)
    · exact ⟨by simp [hm', statusesLeft], by simp [hm'], hle, by simp⟩
    · exact ⟨by simp [hm', statusesLeft], by simp [hm'], hle, by simp⟩
  | readingTrailerHeader m =>
    rw [hstate] at h
    obtain ⟨⟨m', hm'⟩ | ⟨ht, -⟩, hle⟩ := readHeader_done (Option.some.inj h)
    · exact ⟨by simp [hm', statusesLeft], by simp [hm'], hle, by simp⟩
    · cases ht
  | finished m => simp [hstate] at h
  | pendingError => simp [hstate] at h
  | readingBody m =>
    rw [hstate] at h
    have h := Option.some.inj h
    cases hm : isChunked m with
    | false =>
      have hsized := handled_body hm p buffer
      rw [h] at hsized
      cases hsized with
      | done => exact ⟨by simp [statusesLeft], by simp, by simp, by simp⟩
      | empty => exact ⟨by simp [statusesLeft], by simp, le_rfl, by simp⟩
    | true =>
      rw [readBody_chunked hm] at h
      split at h
      · cases h
      · obtain ⟨⟨m', hm'⟩, hle⟩ := readChunks_done _ h
        exact ⟨by simp [hm', statusesLeft], by simp [hm'], hle, by simp⟩

theorem reading_opened (h : statusesLeft p.state ≠ 0) : Reading p.opened := by
  unfold Reading
  rw [state_opened]
  cases hstate : p.state with
  | finished m => simp [hstate, statusesLeft] at h
  | pendingError => simp [hstate, statusesLeft] at h
  | readingBody m =>
    intro hm
    simp [opened, hstate, hm, openChunkBuffer]
  | _ => trivial

theorem handle_isSome (hp : Reading p) : ∃ r, p.handle buffer = some r := by
  unfold Reading at hp
  unfold handle
  cases hstate : p.state with
  | finished m => simp [hstate] at hp
  | pendingError => simp [hstate] at hp
  | _ => exact ⟨_, rfl⟩

/-- What `recvMessage` returns, as a run of the reader. -/
theorem recvLoop_reads (fuel : Nat) (hfuel : statusesLeft p.state ≤ fuel)
    (hp : Reading p.opened) :
    match recvLoop fuel p buffer with
    | (.waitingMoreData, q, rest) =>
      Runs guardedStep p.opened buffer [] (.waiting q rest) ∧ Reading q
    | (.error, _, _) => ∃ e q, Runs guardedStep p.opened buffer [] (.halted e q)
    | (.messageReady, q, rest) =>
      (∃ m, q.state = .finished m ∧ Steps guardedStep p.opened buffer q.reset rest [m]) ∧
        rest.length ≤ buffer.length ∧
        (p.state = .readingStartLine → rest.length < buffer.length) := by
  induction fuel generalizing p buffer with
  | zero =>
    unfold Reading at hp
    rw [state_opened] at hp
    cases hstate : p.state <;> simp [hstate, statusesLeft] at hfuel hp
  | succ fuel ih =>
    obtain ⟨⟨handled, q, rest⟩, hr⟩ := @handle_isSome _ buffer hp
    have hreads := reads_handle hp hr
    rw [handle_opened] at hr
    unfold recvLoop
    rw [hr]
    cases handled with
    | more => exact hreads
    | failed => exact hreads
    | done =>
      obtain ⟨hleft, herror, hlen, hlt⟩ := handle_done hr
      obtain ⟨s, out, hproceed, hsteps⟩ := hreads
      -- unless the message is complete, the loop goes on as it would from here
      have hgo : (∀ m, q.state ≠ .finished m) →
          Steps guardedStep p.opened buffer q.opened rest [] ∧ Reading q.opened := by
        intro hne
        have hleft' : statusesLeft q.state ≠ 0 := by
          cases hq : q.state with
          | finished m => exact absurd hq (hne m)
          | pendingError => exact absurd hq herror
          | _ => simp [statusesLeft]
        refine ⟨?_, reading_opened hleft'⟩
        unfold proceed at hproceed
        split at hproceed
        · rename_i m hm
          exact absurd hm (hne m)
        · cases hproceed
          exact hsteps
      have hcontinue : (∀ m, q.state ≠ .finished m) → _ := fun hne =>
        @ih q rest (by omega) (hgo hne).2
      dsimp only
      cases hq : q.state with
      | finished m =>
        have hsteps' : Steps guardedStep p.opened buffer q.reset rest [m] := by
          unfold proceed at hproceed
          rw [hq] at hproceed
          cases hproceed
          exact hsteps
        exact ⟨⟨m, hq, hsteps'⟩, hlen, hlt⟩
      | pendingError => exact absurd hq herror
      | readingStartLine | readingHeader | readingBody | readingTrailerHeader =>
        have hne : ∀ m, q.state ≠ .finished m := by simp [hq]
        have hsteps' := (hgo hne).1
        have hrest := hcontinue hne
        dsimp only
        revert hrest
        generalize recvLoop fuel q rest = r
        obtain ⟨code, q', rest'⟩ := r
        cases code with
        | waitingMoreData =>
          rintro ⟨hrun, hq'⟩
          exact ⟨hsteps'.runs hrun, hq'⟩
        | error =>
          rintro ⟨e, s, hrun⟩
          exact ⟨e, s, hsteps'.runs hrun⟩
        | messageReady =>
          rintro ⟨⟨m, hm, hsteps''⟩, hlen', -⟩
          exact ⟨⟨m, hm, hsteps'.trans hsteps''⟩, by omega, fun h => by have := hlt h; omega⟩

theorem retrieveAny_finished (h : p.state = .finished message) :
    p.retrieveAny = (some message, p.reset) := by
  unfold retrieveAny retrieveRequest retrieveResponse retrieve
  rw [h]
  cases hm : message.messageType <;> simp [hm, h]

/-- `receive` is a run of the reader. -/
theorem receive_runs (hp : Reading p) (fuel : Nat)
    (hfuel : buffer.length + 2 ≤ fuel ∨ p.state = .readingStartLine ∧ buffer.length + 1 ≤ fuel) :
    ∃ r, Runs guardedStep p buffer (receive fuel p buffer).1 r ∧
      r.waiting? = (receive fuel p buffer).2 ∧ ∀ q rest, r = .waiting q rest → Reading q := by
  induction fuel generalizing p buffer with
  | zero => omega
  | succ fuel ih =>
    have hopen := opened_of_reading hp
    have hreads := @recvLoop_reads p buffer 4
      (by cases p.state <;> simp [statusesLeft]) (hopen.symm ▸ hp)
    rw [hopen] at hreads
    unfold receive recvMessage
    revert hreads
    generalize recvLoop 4 p buffer = r
    obtain ⟨code, q, rest⟩ := r
    cases code with
    | waitingMoreData =>
      rintro ⟨hrun, hq⟩
      refine ⟨.waiting q rest, hrun, rfl, fun _ _ h => ?_⟩
      cases h
      exact hq
    | error =>
      rintro ⟨e, s, hrun⟩
      exact ⟨.halted e s, hrun, rfl, nofun⟩
    | messageReady =>
      rintro ⟨⟨m, hm, hsteps⟩, hlen, hlt⟩
      dsimp only
      rw [retrieveAny_finished hm]
      obtain ⟨r, hrun, hr, hq⟩ := @ih q.reset rest trivial (by
        refine .inr ⟨rfl, ?_⟩
        obtain hfuel | ⟨hstart, hfuel⟩ := hfuel
        · omega
        · have := hlt hstart
          omega)
      exact ⟨r, hsteps.runs hrun, hr, hq⟩

/-- Feeding pieces through `recvMessage` is feeding them to the reader. -/
theorem feed_feeds (hp : Reading p) (pieces : List Bytes) :
    ∃ r, Feeds guardedStep p buffer pieces (feed p buffer pieces).1 r ∧
      r.waiting? = (feed p buffer pieces).2 := by
  induction pieces generalizing p buffer with
  | nil => exact ⟨.waiting p buffer, .nil, rfl⟩
  | cons piece pieces ih =>
    obtain ⟨r, hrun, hr, hq⟩ :=
      @receive_runs p (buffer ++ piece) hp _ (.inl (le_refl _))
    unfold feed
    revert hrun hr
    generalize receive _ p (buffer ++ piece) = received
    obtain ⟨messages, outcome⟩ := received
    cases r with
    | halted e s =>
      intro hrun hr
      cases hr
      exact ⟨.halted e s, .halt hrun, rfl⟩
    | waiting q rest =>
      intro hrun hr
      cases hr
      obtain ⟨r', hfeeds, hr'⟩ := @ih q rest (hq q rest rfl)
      exact ⟨r', .cons hrun hfeeds, hr'⟩

end HttpProtocol

end Brickred
