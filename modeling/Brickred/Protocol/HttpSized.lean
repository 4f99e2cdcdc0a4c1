import Brickred.Protocol.HttpAwait
import Brickred.Protocol.HttpFields

/-!
# Bodies with a `Content-Length`

`readBody` takes what `atoi` makes of the header's value for the length of the body. `atoi`
does not say whether the value is a number: it skips what is before the digits, stops at what
is behind them and makes zero of a value without digits, and a number that an `int` cannot
hold comes out as another. A NUL ends the value as well: `readHeader` has kept nothing of what is
behind it. `lengthOf` is the number that such a value says, if it says one.
-/

namespace Brickred

open Incremental

namespace HttpProtocol

/-- The number that a value says: it is decimal digits and nothing else. -/
def lengthOf (value : Bytes) : Option Nat :=
  if value ≠ [] ∧ value.all isdigit = true then some (digitsValue 10 value) else none

/-- What is asked of a message whose `Content-Length` field has this value in the stream, with
these bytes behind its header block, when the stream comes in these pieces. -/
structure LengthObeyed (p : HttpProtocol) (value rest : Bytes) (pieces : List Bytes) : Prop where
  delivered : ∀ q left m, p.reset.await [] pieces = (.messageReady, q, left) →
    q.state = .finished m →
      lengthOf value = some m.body.length ∧ m.body.length ≤ p.bodyMaxSize ∧ rest = m.body ++ left
  refused : (∀ n, lengthOf value = some n → p.bodyMaxSize < n) →
    (p.reset.await [] pieces).1 = .error

variable {p q : HttpProtocol} {m m₀ message : HttpMessage} {line block front value rest left : Bytes}
  {pieces : List Bytes}

theorem atoi_lengthOf {n : Nat} (h : lengthOf value = some n) (hn : n < 2 ^ 31) : atoi value = n := by
  unfold lengthOf at h
  split at h
  · rename_i hdigits
    cases h
    exact atoi_digits (List.all_eq_true.mp hdigits.2) hdigits.1 hn
  · cases h

/-- What is cut off a value is nothing that `atoi` reads. -/
theorem atoi_kept (value : Bytes) : atoi (kept value) = atoi value := atoi_cstr value

theorem header_of_find (hvalue : m.headers.find (bytes "Content-Length") = some (kept value)) :
    m.hasHeader (bytes "Content-Length") = true ∧
      m.getHeader (bytes "Content-Length") = kept value ∧ isChunked m = false := by
  have hhas : m.hasHeader (bytes "Content-Length") = true := by
    unfold HttpMessage.hasHeader
    rw [hvalue]
    rfl
  refine ⟨hhas, ?_, by rw [isChunked, hhas]; rfl⟩
  unfold HttpMessage.getHeader
  rw [hvalue]
  rfl

/-! ## The body -/

/-- A body of the length that `atoi` makes of the value is taken. -/
theorem step_length (hempty : m.body = [])
    (hvalue : m.headers.find (bytes "Content-Length") = some (kept value)) {body : Bytes}
    (hlen : atoi value = body.length) (hle : body.length ≤ p.bodyMaxSize) (x : Bytes) :
    guardedStep { p.reset with state := .readingBody m } (body ++ x) =
      .next p.reset x [m.setBody body] := by
  obtain ⟨hhas, hget, hsized⟩ := header_of_find hvalue
  rw [guardedStep_body hsized, readBody_eq (p := { p.reset with state := .readingBody m }) hempty hhas
    (by rw [hget, atoi_kept, hlen]) hle]
  rfl

/-- A length that is negative or above the limit is an error. -/
theorem step_length_refused (hvalue : m.headers.find (bytes "Content-Length") = some (kept value))
    (h : atoi value < 0 ∨ (p.bodyMaxSize : Int) < atoi value) (b : Bytes) :
    ∃ s, guardedStep { p.reset with state := .readingBody m } b = .halt .malformed s [] := by
  obtain ⟨hhas, hget, hsized⟩ := header_of_find hvalue
  have hpos := p.bodyMaxSize_pos
  have hfailed : (readBody { p.reset with state := .readingBody m } m b).1 = .failed := by
    unfold readBody
    rw [if_pos hhas, hget, atoi_kept]
    dsimp only
    obtain hneg | hlarge := h
    · rw [if_neg (by omega), if_neg (by omega)]
    · have hmax : (atoi value).toNat > p.reset.bodyMaxSize := by
        show p.bodyMaxSize < _
        omega
      rw [if_pos (by omega), if_pos hmax]
  rw [guardedStep_body hsized]
  revert hfailed
  generalize readBody { p.reset with state := .readingBody m } m b = r
  obtain ⟨handled, q, rest⟩ := r
  rintro ⟨⟩
  exact ⟨_, rfl⟩

/-- A message that is read has a body of the length that `atoi` makes of the value. -/
theorem body_of_steps (hempty : m.body = [])
    (hvalue : m.headers.find (bytes "Content-Length") = some (kept value))
    (h : Steps step { p.reset with state := .readingBody m } rest q.reset left [message]) :
    ∃ body : Bytes, rest = body ++ left ∧ atoi value = body.length ∧ body.length ≤ p.bodyMaxSize ∧
      message = m.setBody body := by
  obtain ⟨-, hget, hsized⟩ := header_of_find hvalue
  generalize hout : [message] = out at h
  cases h with
  | next e hsteps =>
    rw [step_sized rfl hsized] at e
    obtain ⟨s, rest', hr, e⟩ := ofHandled_next e
    obtain ⟨-, body, rfl, hlen, hle, rfl⟩ := readBody_done hsized hempty hr
    cases e
    rw [hget, atoi_kept] at hlen
    obtain ⟨rfl, rfl⟩ := List.cons.inj hout
    exact ⟨body, by rw [rest_of_steps hsteps rfl], hlen, hle, rfl⟩

/-! ## The stream -/

theorem opened_length (hvalue : m.headers.find (bytes "Content-Length") = some (kept value)) :
    opened { p.reset with state := .readingBody m } = { p.reset with state := .readingBody m } :=
  opened_sized (p := p.reset) (header_of_find hvalue).2.2

theorem await_length_refused (hfront : OpeningOf p.limits front m)
    (hvalue : m.headers.find (bytes "Content-Length") = some (kept value))
    (h : atoi value < 0 ∨ (p.bodyMaxSize : Int) < atoi value)
    (hpieces : pieces.flatten = front ++ rest) : (p.reset.await [] pieces).1 = .error := by
  have hopen := hfront.steps rest
  rw [opened_length hvalue] at hopen
  obtain ⟨s, hhalt⟩ := step_length_refused hvalue h rest
  obtain ⟨messages, r, hfeeds, hout⟩ := outcome_feeds p pieces
  obtain ⟨rfl, rfl⟩ := hfeeds.guarded_runs step_stable trivial overLimit_mono
    (hopen.runs (.halt hhalt)) nofun hpieces
  exact await_error_iff.mpr hout

theorem await_length (hfront : OpeningOf p.limits front m)
    (hvalue : m.headers.find (bytes "Content-Length") = some (kept value)) {body : Bytes}
    (hlen : atoi value = body.length) (hle : body.length ≤ p.bodyMaxSize)
    (hpieces : pieces.flatten = front ++ body) :
    ∃ q, p.reset.await [] pieces = (.messageReady, q, []) ∧ q.state = .finished (m.setBody body) := by
  have hopen := hfront.steps (body ++ [])
  rw [opened_length hvalue] at hopen
  have hsteps := hopen.trans (.one (step_length hfront.body_eq hvalue hlen hle []))
  rw [List.append_nil, List.nil_append] at hsteps
  refine await_eq_ready (by rw [hpieces]; exact hsteps.unguarded) ?_
  obtain ⟨messages, r, hfeeds, hout⟩ := outcome_feeds p pieces
  obtain ⟨rfl, rfl⟩ := hfeeds.guarded_runs step_stable trivial overLimit_mono
    (hsteps.runs (.wait (step_nil_reset p))) nofun hpieces
  rw [hout]
  exact nofun

theorem await_length_delivered (hfront : OpeningOf p.limits front m)
    (hvalue : m.headers.find (bytes "Content-Length") = some (kept value))
    (hpieces : pieces.flatten = front ++ rest)
    (hready : p.reset.await [] pieces = (.messageReady, q, left))
    (hstate : q.state = .finished message) :
    rest = message.body ++ left ∧ atoi value = message.body.length ∧
      message.body.length ≤ p.bodyMaxSize := by
  obtain ⟨message', hstate', -, hsteps⟩ := steps_of_await_ready hready
  cases hstate.symm.trans hstate'
  have hopen := (hfront.steps rest).unguarded
  rw [opened_length hvalue] at hopen
  rw [hpieces] at hsteps
  obtain ⟨o, ho, hbody⟩ | ⟨o, ho, -⟩ := hopen.comparable hsteps
  · rw [List.nil_append] at ho
    obtain ⟨body, hrest, hlen, hle, rfl⟩ := body_of_steps hfront.body_eq hvalue (ho ▸ hbody)
    exact ⟨hrest, hlen, hle⟩
  · cases ho

/-- For a header block with a `Content-Length` field: what is asked holds for everything behind
the block, however it comes, exactly if `atoi` makes of the value nothing that is accepted, or the
value is digits and its number is an `int`. -/
theorem lengthObeyed_iff (hline : StartLineOf p.startLineMaxSize line m₀)
    (hblock : BlockOf p.headerMaxSize m₀ block m)
    (hfield : lastField (rawFieldsOf block) (bytes "Content-Length") = some value) :
    (∀ rest pieces, pieces.flatten = line ++ block ++ rest → LengthObeyed p value rest pieces) ↔
      atoi value < 0 ∨ (p.bodyMaxSize : Int) < atoi value ∨
        ∃ n, lengthOf value = some n ∧ n < 2 ^ 31 := by
  have hfront : OpeningOf p.limits (line ++ block) m := .mk hline hblock
  have hvalue : m.headers.find (bytes "Content-Length") = some (kept value) := by
    rw [hblock.find_kept hline.eq_begun, hfield]
    rfl
  constructor
  · intro h
    by_cases hneg : atoi value < 0
    · exact .inl hneg
    by_cases hlarge : (p.bodyMaxSize : Int) < atoi value
    · exact .inr (.inl hlarge)
    -- a body of this length is taken, so that the value has to say it
    let body : Bytes := List.replicate (atoi value).toNat 0
    have hlen : body.length = (atoi value).toNat := List.length_replicate
    have hpieces : [line ++ block ++ body].flatten = line ++ block ++ body := by simp
    have hread : atoi value = body.length := by omega
    obtain ⟨q, hready, hstate⟩ := await_length hfront hvalue hread (by omega) hpieces
    obtain ⟨hsize, -⟩ := (h body [line ++ block ++ body] hpieces).delivered q [] _ hready hstate
    have hlt := atoi_lt value
    refine .inr (.inr ⟨body.length, hsize, by omega⟩)
  · intro h rest pieces hpieces
    by_cases hout : atoi value < 0 ∨ (p.bodyMaxSize : Int) < atoi value
    · have herror := await_length_refused hfront hvalue hout hpieces
      refine ⟨fun q left m hready _ => ?_, fun _ => herror⟩
      rw [hready] at herror
      cases herror
    · obtain ⟨n, hsize, hn⟩ : ∃ n, lengthOf value = some n ∧ n < 2 ^ 31 := by
        obtain hneg | hlarge | hsize := h
        · exact absurd (.inl hneg) hout
        · exact absurd (.inr hlarge) hout
        · exact hsize
      have hvalueEq := atoi_lengthOf hsize hn
      rw [not_or] at hout
      constructor
      · intro q left m hready hstate
        obtain ⟨hrest, hlen, hle⟩ := await_length_delivered hfront hvalue hpieces hready hstate
        have hbody : n = m.body.length := by omega
        exact ⟨hbody ▸ hsize, hle, hrest⟩
      · intro hnone
        have := hnone n hsize
        omega

/-- The header block of a request with this `Content-Length`. -/
def sizedBlock (value : Bytes) : Bytes := bytes "Content-Length: " ++ value ++ (crlf ++ crlf)

/-- A request with this `Content-Length`, up to its body. -/
def sizedRequest (value : Bytes) : HttpMessage :=
  HttpMessage.setHeader ⟨.request .post (bytes "/"), .http11, .empty, []⟩ (bytes "Content-Length")
    value

/-- Five is obeyed. -/
theorem lengthObeyed_iff_five :
    (∀ rest pieces, pieces.flatten =
        (bytes "POST / HTTP/1.1" ++ crlf) ++ sizedBlock (bytes "5") ++ rest →
      LengthObeyed construct (bytes "5") rest pieces) ↔
      atoi (bytes "5") < 0 ∨ (construct.bodyMaxSize : Int) < atoi (bytes "5") ∨
        ∃ n, lengthOf (bytes "5") = some n ∧ n < 2 ^ 31 :=
  lengthObeyed_iff (m := sizedRequest (bytes "5")) (.mk (by decide) rfl (by decide))
    (.mk (by decide) (by decide) rfl (by decide)) rfl

/-- The number 4294967299 is far above the limit, and read as three. -/
theorem not_lengthObeyed : ¬ ∀ (p : HttpProtocol) (line block value : Bytes) (m₀ m : HttpMessage),
    StartLineOf p.startLineMaxSize line m₀ → BlockOf p.headerMaxSize m₀ block m →
      lastField (rawFieldsOf block) (bytes "Content-Length") = some value →
        ∀ rest pieces, pieces.flatten = line ++ block ++ rest →
          LengthObeyed p value rest pieces := by
  intro h
  have hobeyed := h construct (bytes "POST / HTTP/1.1" ++ crlf) (sizedBlock (bytes "4294967299"))
    (bytes "4294967299") _ (sizedRequest (bytes "4294967299")) (.mk (by decide) rfl (by decide))
    (.mk (by decide) (by decide) rfl (by decide)) rfl
    (bytes "abc") [bytes "POST / HTTP/1.1\r\nContent-Length: 4294967299\r\n\r\nabc"] (by decide)
  have hsize : lengthOf (bytes "4294967299") = some 4294967299 := by decide
  have herror := hobeyed.refused fun n hn => by
    rw [hsize] at hn
    cases hn
    decide
  revert herror
  decide +kernel

/-- A value that goes on behind a NUL is no number, though it is read as one. -/
example : lastField (rawFieldsOf (sizedBlock (bytes "3\x00x"))) (bytes "Content-Length") =
      some (bytes "3\x00x") ∧ lengthOf (bytes "3\x00x") = none ∧ atoi (bytes "3\x00x") = 3 := by
  decide

end HttpProtocol

end Brickred
