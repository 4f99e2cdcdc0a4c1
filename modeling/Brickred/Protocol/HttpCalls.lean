import Brickred.Lib.Transition
import Brickred.Protocol.HttpWire

/-!
# Calls of an `HttpProtocol`

A user appends what arrives to the input buffer and calls the functions of the object in
any order. The limits bound what is kept while a message is not complete, and what the
parts of a delivered message are.
-/

namespace Brickred

open Incremental Transition

namespace HttpProtocol

/-- What a user does, with what it returns. -/
inductive Event where
  | append (x : Bytes)
  | recvMessage (ret : HttpRetCode)
  | retrieve (type : MessageType) (message : Option HttpMessage)
  | reset

/-- The object, and the input buffer of the user. -/
structure Reception where
  http : HttpProtocol
  buffer : Bytes

/-- One call. -/
inductive Call : Reception → Event → Reception → Prop where
  | append {s : Reception} {x} : Call s (.append x) { s with buffer := s.buffer ++ x }
  | recvMessage {s : Reception} {ret http rest}
      (h : s.http.recvMessage s.buffer = (ret, http, rest)) :
      Call s (.recvMessage ret) ⟨http, rest⟩
  | retrieve {s : Reception} {type message http} (h : s.http.retrieve type = (message, http)) :
      Call s (.retrieve type message) { s with http }
  | reset {s : Reception} : Call s .reset { s with http := s.http.reset }

/-- What has been appended. -/
def stream (l : List Event) : Bytes :=
  l.flatMap fun
    | .append x => x
    | _ => []

variable {p q : HttpProtocol} {m message : HttpMessage} {buffer rest : Bytes} {w : Parts}
  {l : List Event} {s s' : Reception} {e : Event}

/-! ## What a handler leaves -/

/-- A handler keeps the limits and takes from the front of the input. -/
structure Leaves (p : HttpProtocol) (buffer : Bytes) (q : HttpProtocol) (rest : Bytes) : Prop where
  limits : q.limits = p.limits
  suffix : rest <:+ buffer

theorem Leaves.refl (p : HttpProtocol) (buffer : Bytes) : Leaves p buffer p buffer :=
  ⟨rfl, List.suffix_rfl⟩

theorem Leaves.trans {r : HttpProtocol} {b b' : Bytes} (h₁ : Leaves p buffer q b)
    (h₂ : Leaves q b r b') : Leaves p buffer r b' :=
  ⟨h₂.limits.trans h₁.limits, h₂.suffix.trans h₁.suffix⟩

theorem readStartLine_leaves :
    Leaves p buffer (p.readStartLine buffer).2.1 (p.readStartLine buffer).2.2 := by
  have hread := handled_startLine p buffer
  generalize p.readStartLine buffer = r at hread
  cases hread with
  | failed | more => exact .refl p buffer
  | done => exact ⟨rfl, List.drop_suffix _ _⟩

theorem readHeader_leaves (trailer : Bool) : Leaves p buffer
    (p.readHeader trailer message buffer).2.1 (p.readHeader trailer message buffer).2.2 := by
  have hread := handled_header p trailer message buffer
  generalize p.readHeader trailer message buffer = r at hread
  cases hread with
  | failed | more => exact .refl p buffer
  | bare | block => exact ⟨rfl, List.drop_suffix _ _⟩

theorem readChunks_leaves (fuel : Nat) : Leaves p buffer
    (readChunks message fuel p buffer).2.1 (readChunks message fuel p buffer).2.2 := by
  induction fuel generalizing p buffer with
  | zero => exact .refl p buffer
  | succ fuel ih =>
    unfold readChunks
    cases hc : readChunk p.bodyMaxSize buffer with
    | more | failed => exact .refl p buffer
    | data chunk rest =>
      obtain ⟨head, rfl, -⟩ := readChunk_data hc
      have htake : Leaves p (head ++ crlf ++ chunk ++ crlf ++ rest) (p.appendChunk chunk) rest :=
        ⟨rfl, List.suffix_append _ _⟩
      exact htake.trans ih
    | last rest =>
      obtain ⟨head, rfl, -⟩ := readChunk_last hc
      exact ⟨rfl, List.suffix_append _ _⟩

theorem readBody_leaves :
    Leaves p buffer (p.readBody message buffer).2.1 (p.readBody message buffer).2.2 := by
  cases hm : isChunked message with
  | false =>
    have hsized := handled_body hm p buffer
    generalize p.readBody message buffer = r at hsized
    cases hsized with
    | failed | more => exact .refl p buffer
    | done => exact ⟨rfl, List.drop_suffix _ _⟩
    | empty => exact ⟨rfl, List.suffix_rfl⟩
  | true =>
    have hopen : Leaves p buffer p.openChunkBuffer buffer := ⟨rfl, List.suffix_rfl⟩
    rw [readBody_chunked hm]
    split
    · exact hopen
    · exact hopen.trans (readChunks_leaves _)

theorem handle_leaves {handled : Handled} (h : p.handle buffer = some (handled, q, rest)) :
    Leaves p buffer q rest := by
  have hread : ∀ {r : Handled × HttpProtocol × Bytes}, Leaves p buffer r.2.1 r.2.2 →
      some r = some (handled, q, rest) → Leaves p buffer q rest := by
    rintro _ hr ⟨⟩
    exact hr
  unfold handle at h
  cases hstate : p.state with
  | readingStartLine =>
    rw [hstate] at h
    exact hread readStartLine_leaves h
  | readingHeader m =>
    rw [hstate] at h
    exact hread (readHeader_leaves false) h
  | readingBody m =>
    rw [hstate] at h
    exact hread readBody_leaves h
  | readingTrailerHeader m =>
    rw [hstate] at h
    exact hread (readHeader_leaves true) h
  | finished m => simp [hstate] at h
  | pendingError => simp [hstate] at h

/-- What `recvMessage` leaves, and that an error is there to stay. -/
theorem recvLoop_leaves {ret : HttpRetCode} (fuel : Nat) (hfuel : statusesLeft p.state ≤ fuel)
    (hp : statusesLeft p.state ≠ 0) (h : recvLoop fuel p buffer = (ret, q, rest)) :
    Leaves p buffer q rest ∧ (ret = .error → q.state = .pendingError) := by
  induction fuel generalizing p buffer with
  | zero => omega
  | succ fuel ih =>
    unfold recvLoop at h
    cases hr : p.handle buffer with
    | none =>
      unfold handle at hr
      cases hstate : p.state <;> simp [hstate, statusesLeft] at hr hp
    | some r =>
      obtain ⟨handled, q₁, rest₁⟩ := r
      have hleaves := handle_leaves hr
      rw [hr] at h
      cases handled with
      | more =>
        cases h
        exact ⟨hleaves, by simp⟩
      | failed =>
        cases h
        exact ⟨⟨hleaves.limits, hleaves.suffix⟩, fun _ => rfl⟩
      | done =>
        obtain ⟨hlt, herror, -⟩ := handle_done hr
        dsimp only at h
        split at h
        · cases h
          exact ⟨hleaves, by simp⟩
        · rename_i hne
          have hp₁ : statusesLeft q₁.state ≠ 0 := by
            cases hq₁ : q₁.state with
            | finished m => exact absurd hq₁ (hne m)
            | pendingError => exact absurd hq₁ herror
            | _ => simp [statusesLeft]
          obtain ⟨hleaves₁, herror₁⟩ := ih (by omega) hp₁ h
          exact ⟨hleaves.trans hleaves₁, herror₁⟩

/-! ## What waits -/

theorem ofHandled_wait {r : Handled × HttpProtocol × Bytes} (h : ofHandled p r = .wait) :
    r.1 = .more := by
  obtain ⟨handled, s, rest'⟩ := r
  cases handled with
  | more => rfl
  | failed => cases h
  | done =>
    change proceed s rest' = .wait at h
    unfold proceed at h
    split at h <;> cases h

theorem readStartLine_waits (h : (p.readStartLine buffer).1 = .more) :
    buffer.length ≤ p.startLineMaxSize := by
  have hread := handled_startLine p buffer
  generalize p.readStartLine buffer = r at h hread
  cases hread with
  | more hlen => exact hlen
  | failed | done => cases h

theorem readHeader_waits {trailer : Bool} (h : (p.readHeader trailer message buffer).1 = .more) :
    buffer.length ≤ p.headerMaxSize := by
  have hread := handled_header p trailer message buffer
  generalize p.readHeader trailer message buffer = r at h hread
  cases hread with
  | more hlen => exact hlen
  | failed | bare | block => cases h

theorem readBody_waits (hsized : isChunked m = false) (h : (p.readBody m buffer).1 = .more) :
    buffer.length ≤ p.bodyMaxSize := by
  have hread := handled_body hsized p buffer
  generalize p.readBody m buffer = r at h hread
  cases hread with
  | more hmax hlen => exact hlen.le.trans hmax
  | failed | done | empty => cases h

/-- Where the reader waits, what is unread is within the limits. -/
theorem length_le_of_wait (h : guardedStep p buffer = .wait) :
    buffer.length ≤ max (max p.limits.startLine p.limits.header) p.limits.body ∧
      ∀ m, p.state = .readingBody m → isChunked m = true →
        p.chunks.length + buffer.length ≤ p.limits.body := by
  have hover : overLimit p buffer = false := by
    by_contra hover
    cases (guarded_over (by simpa using hover)).symm.trans h
  have hchunked : ∀ m, p.state = .readingBody m → isChunked m = true →
      p.chunks.length + buffer.length ≤ p.bodyMaxSize := by
    intro m hstate hm
    simpa [overLimit, hstate, hm] using hover
  refine ⟨?_, hchunked⟩
  show buffer.length ≤ max (max p.startLineMaxSize p.headerMaxSize) p.bodyMaxSize
  rw [guardedStep_eq hover] at h
  unfold step at h
  cases hstate : p.state with
  | readingStartLine =>
    rw [hstate] at h
    have hle := readStartLine_waits (ofHandled_wait h)
    omega
  | readingHeader m =>
    rw [hstate] at h
    have hle := readHeader_waits (ofHandled_wait h)
    omega
  | readingTrailerHeader m =>
    rw [hstate] at h
    have hle := readHeader_waits (ofHandled_wait h)
    omega
  | readingBody m =>
    by_cases hm : isChunked m = true
    · have hle := hchunked m hstate hm
      omega
    · rw [hstate] at h
      dsimp only at h
      rw [if_neg hm] at h
      have hle := readBody_waits (by simpa using hm) (ofHandled_wait h)
      omega
  | finished m => simp [hstate] at h
  | pendingError => simp [hstate] at h

/-! ## Calls in any order -/

/-- What the object has taken of a message, has ready, or will not go on with. -/
inductive Holding (p : HttpProtocol) : Parts → Prop where
  | reading {w : Parts} (hreading : Reading p) (hheld : Held p w) : Holding p w
  | finished {w : Parts} {m} (hstate : p.state = .finished m) (hread : ReadAs p.limits w m) :
      Holding p w
  | failed (hstate : p.state = .pendingError) : Holding p .empty

/-- A call of `recvMessage` while a message is read. -/
theorem Holding.recvMessage_reading {ret : HttpRetCode} (hreading : Reading p) (hheld : Held p w)
    (h : p.recvMessage buffer = (ret, q, rest)) :
    q.limits = p.limits ∧
      (∃ x w', w.bytes ++ buffer = x ++ w'.bytes ++ rest ∧ Holding q w') ∧
      (ret = .waitingMoreData →
        rest.length ≤ max (max q.limits.startLine q.limits.header) q.limits.body ∧
        ∀ m, q.state = .readingBody m → isChunked m = true →
          q.chunks.length + rest.length ≤ q.limits.body) := by
  have hopen := opened_of_reading hreading
  have hleft : statusesLeft p.state ≠ 0 := by
    unfold Reading at hreading
    cases hstate : p.state <;> simp [hstate, statusesLeft] at hreading ⊢
  have hfuel : statusesLeft p.state ≤ 4 := by
    cases p.state <;> simp [statusesLeft]
  unfold recvMessage at h
  obtain ⟨hleaves, herror⟩ := recvLoop_leaves 4 hfuel hleft h
  have hreads := @recvLoop_reads p buffer 4 hfuel (hopen.symm ▸ hreading)
  rw [h, hopen] at hreads
  refine ⟨hleaves.limits, ?_, ?_⟩
  · cases ret with
    | waitingMoreData =>
      obtain ⟨hrun, hq⟩ := hreads
      obtain ⟨-, ws, w', hread, hheld', hbytes⟩ := hheld.steps hrun.steps.1
      exact ⟨bytesOf ws, w', hbytes.symm, .reading hq hheld'⟩
    | error =>
      obtain ⟨x, rfl⟩ := hleaves.suffix
      exact ⟨w.bytes ++ x, .empty, by simp [Parts.bytes, Parts.empty], .failed (herror rfl)⟩
    | messageReady =>
      obtain ⟨⟨m, hstate, hsteps⟩, -⟩ := hreads
      obtain ⟨-, ws, w', hread, hheld', hbytes⟩ := hheld.steps hsteps
      rw [← hleaves.limits] at hread
      cases hread with
      | @cons w₁ _ _ _ hm hnil =>
        cases hnil
        have hempty : w'.bytes = [] := by
          cases hheld' with
          | startLine => rfl
          | header hs | body hs | chunks hs | trailer hs => cases hs
        refine ⟨[], w₁, ?_, .finished hstate hm⟩
        rw [← hbytes, hempty]
        simp [bytesOf]
  · rintro rfl
    exact length_le_of_wait hreads.1.steps.2

/-- What is known of an object after some calls: it has taken what it holds from the
stream, and so it has what it has delivered. -/
structure Served (lim : Limits) (l : List Event) (s : Reception) : Prop where
  limits : s.http.limits = lim
  holds : ∃ x w, stream l = x ++ w.bytes ++ s.buffer ∧ Holding s.http w
  delivered : ∀ type m, .retrieve type (some m) ∈ l →
    ∃ w, ReadAs lim w m ∧ w.bytes <:+: stream l

theorem stream_append (l : List Event) (e : Event) : stream (l ++ [e]) = stream l ++ stream [e] := by
  unfold stream
  rw [List.flatMap_append]

theorem stream_other (h : ∀ x, e ≠ .append x) : stream (l ++ [e]) = stream l := by
  rw [stream_append]
  cases e with
  | append x => exact absurd rfl (h x)
  | recvMessage | retrieve | reset => exact List.append_nil _

theorem recvMessage_finished (h : (∃ m, p.state = .finished m) ∨ p.state = .pendingError) :
    p.recvMessage buffer = (.error, p, buffer) := by
  unfold recvMessage recvLoop handle
  obtain ⟨m, h⟩ | h := h <;> rw [h]

theorem Served.init (p : HttpProtocol) : Served p.limits [] ⟨p.reset, []⟩ where
  limits := rfl
  holds := ⟨[], .empty, rfl, .reading trivial (.startLine rfl rfl)⟩
  delivered := nofun

/-- A call that delivers nothing. -/
theorem Served.snoc {lim : Limits} (h : Served lim l s) (hlimits : s'.http.limits = lim)
    (hholds : ∃ x w, stream (l ++ [e]) = x ++ w.bytes ++ s'.buffer ∧ Holding s'.http w)
    (hnone : ∀ type m, e = .retrieve type (some m) → ∃ w, ReadAs lim w m ∧ w.bytes <:+: stream l) :
    Served lim (l ++ [e]) s' where
  limits := hlimits
  holds := hholds
  delivered type m hmem := by
    have hsome : ∃ w, ReadAs lim w m ∧ w.bytes <:+: stream l := by
      obtain hmem | hmem := List.mem_append.mp hmem
      · exact h.delivered type m hmem
      · exact hnone type m (List.mem_singleton.mp hmem).symm
    obtain ⟨w, hread, hinfix⟩ := hsome
    refine ⟨w, hread, hinfix.trans ?_⟩
    rw [stream_append]
    exact (List.prefix_append _ _).isInfix

theorem Served.step {lim : Limits} (h : Served lim l s) (hcall : Call s e s') :
    Served lim (l ++ [e]) s' := by
  obtain ⟨x, w, hstream, hholding⟩ := h.holds
  cases hcall with
  | @append y =>
    refine h.snoc h.limits ⟨x, w, ?_, hholding⟩ (by simp)
    rw [stream_append, hstream]
    simp [stream]
  | @recvMessage ret http rest hrecv =>
    have hnil : stream (l ++ [.recvMessage ret]) = stream l := stream_other (by simp)
    cases hholding with
    | reading hreading hheld =>
      obtain ⟨hlimits, ⟨y, w', hbytes, hholding'⟩, -⟩ :=
        Holding.recvMessage_reading hreading hheld hrecv
      refine h.snoc (hlimits.trans h.limits) ⟨x ++ y, w', ?_, hholding'⟩ (by simp)
      rw [hnil, hstream, List.append_assoc, hbytes]
      simp
    | @finished _ m hstate hread =>
      cases (recvMessage_finished (.inl ⟨_, hstate⟩)).symm.trans hrecv
      exact h.snoc h.limits ⟨x, w, hnil.trans hstream, .finished hstate hread⟩ (by simp)
    | failed hstate =>
      cases (recvMessage_finished (.inr hstate)).symm.trans hrecv
      exact h.snoc h.limits ⟨x, .empty, hnil.trans hstream, .failed hstate⟩ (by simp)
  | @retrieve type message http hretrieve =>
    have hnil : stream (l ++ [.retrieve type message]) = stream l := stream_other (by simp)
    have hkeep : message = none → http = s.http →
        Served lim (l ++ [.retrieve type message]) { s with http } := by
      rintro rfl rfl
      exact h.snoc h.limits ⟨x, w, hnil.trans hstream, hholding⟩ (by simp)
    unfold HttpProtocol.retrieve at hretrieve
    split at hretrieve
    · rename_i m hstate
      split at hretrieve
      · cases hretrieve
        refine h.snoc h.limits ⟨x ++ w.bytes, .empty, ?_, .reading trivial (.startLine rfl rfl)⟩ ?_
        · rw [hnil, hstream]
          simp [Parts.bytes, Parts.empty]
        · rintro _ _ ⟨⟩
          cases hholding with
          | reading hreading =>
            unfold Reading at hreading
            rw [hstate] at hreading
            exact hreading.elim
          | finished hstate' hread =>
            cases hstate.symm.trans hstate'
            rw [h.limits] at hread
            refine ⟨w, hread, ?_⟩
            rw [hstream, List.append_assoc]
            exact ⟨x, s.buffer, List.append_assoc ..⟩
          | failed hstate' => cases hstate.symm.trans hstate'
      · cases hretrieve
        exact hkeep rfl rfl
    · cases hretrieve
      exact hkeep rfl rfl
  | reset =>
    have hnil : stream (l ++ [.reset]) = stream l := stream_other (by simp)
    refine h.snoc h.limits ⟨x ++ w.bytes, .empty, ?_, .reading trivial (.startLine rfl rfl)⟩ (by simp)
    rw [hnil, hstream]
    simp [Parts.bytes, Parts.empty]

theorem Served.run (h : Run Call ⟨p.reset, []⟩ l s) : Served p.limits l s :=
  h.history (fun hs hcall => hs.step hcall) (.init p)

/-- The parts of a message are within the limits. -/
theorem ReadAs.within (h : ReadAs p.limits w m) :
    w.startLine.length ≤ p.startLineMaxSize ∧ w.header.length ≤ p.headerMaxSize ∧
      m.body.length ≤ p.bodyMaxSize := by
  have hline : ∀ {line : Bytes} {m : HttpMessage}, StartLineOf p.limits.startLine line m →
      line.length ≤ p.startLineMaxSize := by
    rintro _ _ ⟨-, -, hle⟩
    exact hle
  have hblock : ∀ {block : Bytes} {m₀ m : HttpMessage}, BlockOf p.limits.header m₀ block m →
      block.length ≤ p.headerMaxSize := by
    rintro _ _ _ ⟨-, -, -, hle⟩
    exact hle
  cases h with
  | bare hl =>
    refine ⟨hline hl, ?_, ?_⟩
    · show crlf.length ≤ p.headerMaxSize
      exact Nat.le_trans (by decide) p.headerMaxSize_ge
    · rw [hl.body_eq]
      exact Nat.zero_le _
  | sized hl hb _ _ hle => exact ⟨hline hl, hblock hb, hle⟩
  | @chunked line block raw last body trailer m₀ m₁ _ hl hb _ _ _ hle htrailer =>
    refine ⟨hline hl, hblock hb, ?_⟩
    cases htrailer with
    | none => exact hle
    | block ht =>
      rw [ht.body_eq]
      exact hle

/-- Whenever `recvMessage` waits for more, the input buffer holds no more than the largest
limit, and with the chunks that have been read no more than the limit on bodies while a
chunked body is read; and each message that is delivered is a part of the stream whose
start line, header block and body are within their limits. -/
theorem run_bounded (h : Run Call ⟨p.reset, []⟩ l s) :
    (∀ s', Call s (.recvMessage .waitingMoreData) s' →
      s'.buffer.length ≤ max (max p.startLineMaxSize p.headerMaxSize) p.bodyMaxSize ∧
      ∀ m, s'.http.state = .readingBody m → isChunked m = true →
        s'.http.chunks.length + s'.buffer.length ≤ p.bodyMaxSize) ∧
    ∀ type m, .retrieve type (some m) ∈ l → ∃ w : Parts, ReadAs p.limits w m ∧
      w.bytes <:+: stream l ∧ w.startLine.length ≤ p.startLineMaxSize ∧
      w.header.length ≤ p.headerMaxSize ∧ m.body.length ≤ p.bodyMaxSize := by
  have hs := Served.run h
  constructor
  · intro s' hcall
    obtain ⟨x, w, -, hholding⟩ := hs.holds
    cases hcall with
    | @recvMessage _ http rest hrecv =>
      cases hholding with
      | reading hreading hheld =>
        obtain ⟨hlimits, -, hwait⟩ := Holding.recvMessage_reading hreading hheld hrecv
        rw [hlimits, hs.limits] at hwait
        exact hwait rfl
      | @finished _ m hstate => cases (recvMessage_finished (.inl ⟨_, hstate⟩)).symm.trans hrecv
      | failed hstate =>
        cases (recvMessage_finished (.inr hstate)).symm.trans hrecv
  · intro type m hmem
    obtain ⟨w, hread, hinfix⟩ := hs.delivered type m hmem
    exact ⟨w, hread, hinfix, hread.within⟩

/-- The message whose body is being read. -/
def inBody : HttpState → Option HttpMessage
  | .readingBody message => some message
  | _ => none

theorem inBody_eq_some {state : HttpState} {message : HttpMessage}
    (h : inBody state = some message) : state = .readingBody message := by
  cases state <;> cases h
  rfl

/-- A chunk, and more to come. -/
theorem run_bounded_chunk : ∃ s s' : Reception,
    Run Call ⟨construct.reset, []⟩
      [.append (bytes "GET / HTTP/1.1\r\nTransfer-Encoding: chunked\r\n\r\n2\r\nab\r\n3")] s ∧
    Call s (.recvMessage .waitingMoreData) s' ∧ s'.http.chunks = bytes "ab" ∧
    s'.http.chunks.length + s'.buffer.length ≤ 1024 * 1024 := by
  let text := bytes "GET / HTTP/1.1\r\nTransfer-Encoding: chunked\r\n\r\n2\r\nab\r\n3"
  have hcode : (construct.reset.recvMessage text).1 = .waitingMoreData := by decide +kernel
  have hchunks : (construct.reset.recvMessage text).2.1.chunks = bytes "ab" := by decide +kernel
  have hrun : Run Call ⟨construct.reset, []⟩ [.append text] ⟨construct.reset, text⟩ :=
    .cons .append .nil
  obtain ⟨m, hstate, hm⟩ : ∃ m, (construct.reset.recvMessage text).2.1.state = .readingBody m ∧
      isChunked m = true := by
    have hbody : (inBody (construct.reset.recvMessage text).2.1.state).any isChunked = true := by
      decide +kernel
    obtain ⟨m, hstate, hm⟩ := (Option.any_eq_true _ _).mp hbody
    exact ⟨m, inBody_eq_some hstate, hm⟩
  have hcall : Call ⟨construct.reset, text⟩ (.recvMessage .waitingMoreData)
      ⟨(construct.reset.recvMessage text).2.1, (construct.reset.recvMessage text).2.2⟩ :=
    .recvMessage (by rw [← hcode])
  exact ⟨_, _, hrun, hcall, hchunks, ((run_bounded hrun).1 _ hcall).2 m hstate hm⟩

end HttpProtocol

end Brickred
