import Brickred.Protocol.HttpWire

/-!
# Waiting for one message

`await` calls `recvMessage` for one piece of a stream after another until it does not wait.
A message that is nothing but headers completes if they say that its body has length zero,
and only then.
-/

namespace Brickred

open Incremental

namespace HttpProtocol

open HttpMessage

/-- The calls of `recvMessage`, one for each piece, until one does not wait for more. The
pieces behind it stay unread. -/
def await (p : HttpProtocol) (buffer : Bytes) : List Bytes → HttpRetCode × HttpProtocol × Bytes
  | [] => (.waitingMoreData, p, buffer)
  | piece :: pieces =>
    match p.recvMessage (buffer ++ piece) with
    | (.waitingMoreData, q, rest) => await q rest pieces
    | (ret, q, rest) => (ret, q, rest ++ pieces.flatten)

/-- The headers say that there is no body. -/
def ZeroLength (headers : HeaderMap) : Prop :=
  ∃ value, headers.find (bytes "Content-Length") = some value ∧ atoi value = 0

variable {p q : HttpProtocol} {buffer rest : Bytes} {m : HttpMessage}

/-- What `await` comes to, by what feeding the pieces delivers. -/
theorem await_feed (hp : Reading p) (pieces : List Bytes) :
    match p.await buffer pieces with
    | (.waitingMoreData, q, rest) => p.feed buffer pieces = ([], some (q, rest))
    | (.error, _, _) => p.feed buffer pieces = ([], none)
    | (.messageReady, q, rest) => ∃ m ms, q.state = .finished m ∧
        (p.feed buffer pieces).1 = m :: ms ∧
        Steps step p (buffer ++ pieces.flatten) q.reset rest [m] := by
  induction pieces generalizing p buffer with
  | nil => rfl
  | cons piece pieces ih =>
    have hopen := opened_of_reading hp
    have hreads := @recvLoop_reads p (buffer ++ piece) 4
      (by cases p.state <;> simp [statusesLeft]) (hopen.symm ▸ hp)
    rw [hopen] at hreads
    unfold await
    cases hr : p.recvMessage (buffer ++ piece) with
    | mk code r =>
      obtain ⟨q, rest⟩ := r
      have hr' := hr
      unfold recvMessage at hr'
      rw [hr'] at hreads
      cases code with
      | waitingMoreData =>
        obtain ⟨hrun, hq⟩ := hreads
        have hfeed : p.feed buffer (piece :: pieces) = q.feed rest pieces := by
          rw [feed, receive, hr]
          rfl
        have hsteps := hrun.steps.1.unguarded.append step_stable trivial pieces.flatten
        rw [List.append_assoc] at hsteps
        have hrest := @ih q rest hq
        dsimp only
        revert hrest
        generalize q.await rest pieces = a
        obtain ⟨code, q', rest'⟩ := a
        rw [hfeed, List.flatten_cons]
        cases code with
        | waitingMoreData | error => exact id
        | messageReady =>
          rintro ⟨m, ms, hstate, hms, hsteps'⟩
          exact ⟨m, ms, hstate, hms, hsteps.trans hsteps'⟩
      | error =>
        show p.feed buffer (piece :: pieces) = _
        rw [feed, receive, hr]
      | messageReady =>
        obtain ⟨⟨m, hstate, hsteps⟩, -⟩ := hreads
        have hall := hsteps.unguarded.append step_stable trivial pieces.flatten
        rw [List.append_assoc] at hall
        have hfirst : ∃ ms, (p.feed buffer (piece :: pieces)).1 = m :: ms := by
          rw [feed, receive, hr]
          dsimp only
          rw [retrieveAny_finished hstate]
          dsimp only
          split
          · rename_i h
            exact ⟨_, (congrArg Prod.fst h).symm⟩
          · rename_i h
            exact ⟨_, congrArg (· ++ _) (congrArg Prod.fst h).symm⟩
        obtain ⟨ms, hms⟩ := hfirst
        exact ⟨m, ms, hstate, hms, hall⟩

/-! ## Nothing is read behind a message -/

/-- A step that delivers nothing is within a message. -/
theorem state_of_step (h : step p buffer = .next q rest []) : q.state ≠ .readingStartLine := by
  have hhandled : ∀ {r : Handled × HttpProtocol × Bytes}, p.handle buffer = some r →
      ofHandled p r = .next q rest [] → q.state ≠ .readingStartLine := by
    rintro ⟨handled, s, rest'⟩ hr he
    cases handled with
    | more | failed => cases he
    | done =>
      obtain ⟨hleft, -⟩ := handle_done hr
      change proceed s rest' = _ at he
      unfold proceed at he
      split at he
      · cases he
      · cases he
        rw [state_opened]
        intro hs
        rw [hs] at hleft
        cases hstate : p.state <;> simp [hstate, statusesLeft] at hleft
  unfold step at h
  cases hstate : p.state with
  | readingStartLine =>
    rw [hstate] at h
    exact hhandled (by rw [handle, hstate]) h
  | readingHeader m =>
    rw [hstate] at h
    exact hhandled (by rw [handle, hstate]) h
  | readingTrailerHeader m =>
    rw [hstate] at h
    exact hhandled (by rw [handle, hstate]) h
  | finished m => simp [hstate] at h
  | pendingError => simp [hstate] at h
  | readingBody m =>
    rw [hstate] at h
    dsimp only at h
    split at h
    · cases hc : readChunk p.bodyMaxSize buffer with
      | more | failed => simp [hc, ofChunk] at h
      | data chunk rest' =>
        rw [hc] at h
        cases h
        simp [appendChunk, hstate]
      | last rest' =>
        rw [hc] at h
        cases h
        simp [beginTrailer]
    · exact hhandled (by rw [handle, hstate]) h

/-- Steps that deliver nothing and end between messages are no steps. -/
theorem rest_of_steps (h : Steps step p buffer q rest []) (hq : q.state = .readingStartLine) :
    buffer = rest := by
  generalize hout : ([] : List HttpMessage) = out at h
  cases h with
  | refl => rfl
  | next e hsteps =>
    exfalso
    revert hout
    have hlast : ∀ {s b s' b' o}, Steps step s b s' b' o → o = [] →
        s.state ≠ .readingStartLine → s'.state ≠ .readingStartLine := by
      intro s b s' b' o hs
      induction hs with
      | refl => exact fun _ h => h
      | next e _ ih =>
        intro ho _
        obtain ⟨rfl, ho'⟩ := List.append_eq_nil_iff.mp ho
        exact ih ho' (state_of_step e)
    intro hout
    obtain ⟨rfl, hout'⟩ := List.append_eq_nil_iff.mp hout.symm
    exact hlast hsteps hout' (state_of_step e) hq

/-! ## What `await` returns, by the stream -/

variable {pieces : List Bytes} {more : Bytes}

/-- If the bytes are read as a message with some behind it and anything is delivered, this
message is, and the bytes behind it are left. -/
theorem await_eq_ready (hsteps : Steps step p.reset pieces.flatten p.reset more [m])
    (hdelivered : (outcome p.reset pieces).1 ≠ []) :
    ∃ q, p.reset.await [] pieces = (.messageReady, q, more) ∧ q.state = .finished m := by
  have hawait := @await_feed p.reset [] trivial pieces
  change (p.reset.feed [] pieces).1 ≠ [] at hdelivered
  revert hawait
  generalize p.reset.await [] pieces = a
  obtain ⟨code, q, rest⟩ := a
  cases code with
  | waitingMoreData | error =>
    intro hfeed
    rw [hfeed] at hdelivered
    exact absurd rfl hdelivered
  | messageReady =>
    rintro ⟨m', ms, hstate, -, hsteps'⟩
    rw [List.nil_append] at hsteps'
    -- after the message, both are between messages, and so have read as far
    obtain ⟨o, ho, hrest⟩ | ⟨o, ho, hrest⟩ := hsteps.comparable hsteps'
    · obtain ⟨rfl, rfl⟩ := List.cons.inj ho
      exact ⟨q, by rw [rest_of_steps hrest rfl], hstate⟩
    · obtain ⟨rfl, rfl⟩ := List.cons.inj ho
      exact ⟨q, by rw [rest_of_steps hrest rfl], hstate⟩

/-- What is returned as a message is read from the first bytes of the stream. -/
theorem steps_of_await_ready (h : p.reset.await [] pieces = (.messageReady, q, rest)) :
    ∃ m, q.state = .finished m ∧ (outcome p.reset pieces).1 ≠ [] ∧
      Steps step p.reset pieces.flatten q.reset rest [m] := by
  have hawait := @await_feed p.reset [] trivial pieces
  rw [h] at hawait
  obtain ⟨m, ms, hstate, hms, hsteps⟩ := hawait
  refine ⟨m, hstate, ?_, hsteps⟩
  show (p.reset.feed [] pieces).1 ≠ []
  rw [hms]
  exact nofun

theorem await_error_iff :
    (p.reset.await [] pieces).1 = .error ↔ outcome p.reset pieces = ([], true) := by
  have hawait := @await_feed p.reset [] trivial pieces
  unfold outcome
  revert hawait
  generalize p.reset.await [] pieces = a
  obtain ⟨code, q, rest⟩ := a
  cases code with
  | waitingMoreData =>
    intro hfeed
    rw [hfeed]
    simp
  | error =>
    intro hfeed
    rw [hfeed]
    simp
  | messageReady =>
    rintro ⟨m, ms, -, hms, -⟩
    rw [hms]
    simp

/-! ## A message that is nothing but headers -/

theorem zeroLength_iff : ZeroLength m.headers ↔ m.hasHeader (bytes "Content-Length") = true ∧
    atoi (m.getHeader (bytes "Content-Length")) = 0 := by
  unfold ZeroLength hasHeader getHeader
  cases m.headers.find (bytes "Content-Length") with
  | none => simp
  | some value => simp

theorem guardedStep_zeroLength (hempty : m.body = []) (hzero : ZeroLength m.headers) :
    guardedStep (opened { p.reset with state := .readingBody m }) [] = .next p.reset [] [m] := by
  obtain ⟨hhas, hvalue⟩ := zeroLength_iff.mp hzero
  have hsized : isChunked m = false := by
    rw [isChunked, hhas]
    rfl
  have hbody := @readBody_eq { p.reset with state := .readingBody m } m [] hempty hhas hvalue
    (Nat.zero_le _) []
  rw [List.nil_append, setBody_nil hempty] at hbody
  rw [opened_sized hsized, guardedStep_body hsized, hbody]
  rfl

theorem guardedStep_not_zeroLength (hzero : ¬ ZeroLength m.headers) :
    guardedStep (opened { p.reset with state := .readingBody m }) [] = .wait ∨
      ∃ s, guardedStep (opened { p.reset with state := .readingBody m }) [] =
        .halt .malformed s [] := by
  cases hsized : isChunked m with
  | true =>
    have hopened : opened { p.reset with state := .readingBody m } =
        { p.reset with state := .readingBody m, chunkBuffer := some [] } := if_pos hsized
    rw [hopened, guardedStep_eq (by simp [overLimit, chunks])]
    exact .inl (if_pos hsized)
  | false =>
    rw [opened_sized hsized, guardedStep_body hsized]
    unfold readBody
    split
    · rename_i hhas
      have hvalue : atoi (m.getHeader (bytes "Content-Length")) ≠ 0 := fun h =>
        hzero (zeroLength_iff.mpr ⟨hhas, h⟩)
      dsimp only
      split
      · rename_i hpos
        split
        · exact .inr ⟨_, rfl⟩
        · rw [if_pos (by rw [List.length_nil]; omega)]
          exact .inl rfl
      · exact .inr ⟨_, rfl⟩
    · rename_i hhas
      have hnot : m.headerContain (bytes "Transfer-Encoding") (bytes "chunked") = false := by
        simpa [isChunked, hhas] using hsized
      rw [hnot]
      exact .inr ⟨_, rfl⟩

/-- A message without a body that is written on lines. -/
structure Bare (p : HttpProtocol) (m : HttpMessage) : Prop where
  start : LineStart m.startLine
  version : m.version ≠ .unknown
  headers : ∀ h ∈ m.headers.entries, LineHeader h
  headers_ne : m.headers.entries ≠ []
  body : m.body = []
  within : Within p m

theorem Bare.steps (h : Bare p m) : Steps guardedStep p.reset (wire m)
    (opened { p.reset with state := .readingBody (headed m) }) [] [] := by
  have hsteps := steps_headers h.start h.version h.headers_ne h.headers h.within []
  rw [wire, h.body]
  exact hsteps

/-- It is read to its end if its headers say so, however it is cut. -/
theorem Bare.await_ready (h : Bare p m) (hzero : ZeroLength (reread m.headers))
    {pieces : List Bytes} (hpieces : pieces.flatten = wire m) :
    ∃ q, p.reset.await [] pieces = (.messageReady, q, []) ∧ q.state = .finished (headed m) := by
  have hlast := @guardedStep_zeroLength p (headed m) rfl hzero
  have hrun : Runs guardedStep p.reset (wire m) ([] ++ ([headed m] ++ []))
      (.waiting p.reset []) := h.steps.runs (.next hlast (.wait (step_nil_reset p)))
  obtain ⟨messages, r, hfeeds, hout⟩ := outcome_feeds p pieces
  obtain ⟨rfl, rfl⟩ := hfeeds.guarded_runs step_stable trivial overLimit_mono hrun nofun hpieces
  obtain ⟨hsteps, -⟩ := hrun.steps
  refine await_eq_ready (hpieces ▸ hsteps.unguarded) ?_
  rw [hout]
  exact nofun

/-- Otherwise it is never complete. -/
theorem Bare.await_not_ready (h : Bare p m) (hzero : ¬ ZeroLength (reread m.headers))
    {pieces : List Bytes} (hpieces : pieces.flatten = wire m) :
    (p.reset.await [] pieces).1 ≠ .messageReady := by
  have hrun : ∃ r, Runs guardedStep p.reset (wire m) [] r ∧ ∀ s, r ≠ .halted .bodyTooLarge s := by
    obtain hwait | ⟨s, hhalt⟩ := @guardedStep_not_zeroLength p (headed m) hzero
    · exact ⟨_, h.steps.runs (.wait hwait), nofun⟩
    · exact ⟨_, h.steps.runs (.halt hhalt), nofun⟩
  obtain ⟨r, hrun, hfree⟩ := hrun
  obtain ⟨messages, r', hfeeds, hout⟩ := outcome_feeds p pieces
  obtain ⟨rfl, rfl⟩ := hfeeds.guarded_runs step_stable trivial overLimit_mono hrun hfree hpieces
  have hmessages : (p.reset.feed [] pieces).1 = [] := congrArg Prod.fst hout
  have hawait := @await_feed p.reset [] trivial pieces
  intro hready
  revert hawait hready
  generalize p.reset.await [] pieces = a
  obtain ⟨code, q, rest⟩ := a
  intro hawait hready
  cases code with
  | waitingMoreData | error => cases hready
  | messageReady =>
    obtain ⟨m', ms, -, hms, -⟩ := hawait
    rw [hmessages] at hms
    cases hms

/-! ## Sending it -/

theorem length_formatHeader_le {hs : List (Bytes × Bytes)} {h : Bytes × Bytes} (hmem : h ∈ hs) :
    (formatHeader h).length ≤ (hs.flatMap formatHeader).length := by
  obtain ⟨hs₁, hs₂, rfl⟩ := List.append_of_mem hmem
  simp only [List.flatMap_append, List.flatMap_cons, List.length_append]
  omega

/-- What is reserved for headers is a few times what they take. -/
theorem headers_reserved_le {hs : List (Bytes × Bytes)} (hh : ∀ h ∈ hs, LineHeader h) :
    (hs.map fun h => 32 + h.1.length + h.2.length).sum ≤ 8 * (hs.flatMap formatHeader).length := by
  induction hs with
  | nil => exact Nat.zero_le _
  | cons h hs ih =>
    have hrest := ih fun h' hmem => hh h' (.tail _ hmem)
    have hcolon : (bytes ": ").length = 2 := rfl
    rw [List.map_cons, List.sum_cons, List.flatMap_cons, List.length_append,
      formatHeader_eq (hh h (.head _)), headerLine]
    simp only [List.length_append, length_crlf, hcolon]
    omega

theorem Bare.printable (h : Bare construct m) : Printable m := by
  have hstart : (formatStartLine m).length ≤ 8 * 1024 := h.within.start
  have hheaders : (m.headers.entries.flatMap formatHeader).length + 2 ≤ 32 * 1024 := h.within.headers
  refine ⟨by omega, fun h' hmem => ?_⟩
  have hle := length_formatHeader_le hmem
  omega

theorem Bare.reserved_le (h : Bare construct m) : reserved m ≤ 2 ^ 20 := by
  have hstart : (formatStartLine m).length ≤ 8 * 1024 := h.within.start
  have hheaders : (m.headers.entries.flatMap formatHeader).length + 2 ≤ 32 * 1024 := h.within.headers
  have hreserved := headers_reserved_le h.headers
  have hline : startLineReserve m ≤ 64 + (formatStartLine m).length := by
    have hlines := h.start
    unfold formatStartLine startLineReserve
    cases hm : m.startLine with
    | request method uri =>
      rw [hm] at hlines
      obtain ⟨-, -, -, h0⟩ := hlines
      simp only [cstr_eq h0, List.length_append]
      omega
    | response code reason =>
      rw [hm] at hlines
      obtain ⟨-, -, -, h0⟩ := hlines
      simp only [cstr_eq h0, List.length_append]
      omega
  unfold reserved
  rw [h.body, List.length_nil]
  omega

/-- It is sent as its bytes. -/
theorem Bare.sendMessage_eq (h : Bare construct m) : sendMessage m = some (wire m) := by
  have hint : IntStatus m.startLine := by
    have hlines := h.start
    cases hm : m.startLine with
    | request method uri => trivial
    | response code reason =>
      rw [hm] at hlines
      obtain ⟨hpos, hlt, -⟩ := hlines
      exact ⟨by omega, hlt⟩
  obtain ⟨b, hb⟩ : ∃ b, DynamicBuffer.construct 1024 1024 = some b := ⟨_, rfl⟩
  have hempty := DynamicBuffer.readable_construct hb
  have hexpand : b.expandSize = 1024 := by
    cases hb
    rfl
  have hlen := congrArg List.length hempty
  rw [DynamicBuffer.length_readable, List.length_nil] at hlen
  have hle := h.reserved_le
  obtain ⟨b', e, hread, -⟩ := writeMessage_spec (b := b) m hint (by omega)
  rw [hempty, List.nil_append, written_eq_wire h.printable] at hread
  simp only [sendMessage, hb, e, Option.bind_eq_bind, Option.bind_some, hread]

end HttpProtocol

end Brickred
