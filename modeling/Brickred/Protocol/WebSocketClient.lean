import Brickred.Protocol.HttpFields
import Brickred.Protocol.WebSocketSession

/-!
# What a client accepts as a response

A client that waits for the response to its handshake is connected by the first HTTP
message of the stream, if `checkHandshakeResponseValid` accepts it. The accept value is
compared as the other headers are, regardless of case, although it is base64; and it is
compared as `readHeader` has kept it, up to its first NUL. The status code is what `atoi`
makes of its word in the start line.
-/

namespace Brickred

open StringUtil (caseInsensitiveEqual_iff toLower)

namespace WebSocketProtocol

open HttpProtocol (Parts ReadAs Reading kept lastField outcome statusText)

/-- The calls of `recvMessage`, one for each piece, until one does not wait for more. -/
def awaitResponse (date : Bytes) (p : WebSocketProtocol) (buffer : Bytes) :
    List Bytes → Option (Result × WebSocketProtocol × Bytes)
  | [] => some (.code .waitingMoreData, p, buffer)
  | piece :: pieces =>
    match p.recvMessage date (buffer ++ piece) with
    | some (.returned (.code .waitingMoreData) q, rest) => awaitResponse date q rest pieces
    | some (.returned r q, rest) => some (r, q, rest)
    | _ => none

/-- `handshake_headers_["Sec-WebSocket-Key"]` -/
def secKey (p : WebSocketProtocol) : Bytes :=
  (p.handshakeHeaders.find (bytes "Sec-WebSocket-Key")).getD []

/-- The value that has to be the digest of the key, in the bytes of a message. -/
def acceptOf (w : Parts) : Bytes :=
  (lastField w.rawFields (bytes "Sec-WebSocket-Accept")).getD []

/-- A client that has sent its request. -/
structure Requested (p : WebSocketProtocol) : Prop where
  status : p.status = .waitingHandshakeResponse
  http : p.http = p.http.reset

/-- What the digest is for: only the bytes of a response that has it establish the connection,
and any other accept value is an error that nothing undoes. -/
structure ChecksAccept (date : Bytes) (p : WebSocketProtocol) (pieces : List Bytes) : Prop where
  established : ∀ q rest, awaitResponse date p [] pieces =
      some (.code .connectionEstablished, q, rest) →
    ∃ w m reason, ReadAs p.http.limits w m ∧ w.bytes <+: pieces.flatten ∧
      m.startLine = .response 101 reason ∧ statusText w = bytes "101" ∧
      acceptOf w = acceptValue p.secKey
  refused : ∀ w m, ReadAs p.http.limits w m → w.bytes <+: pieces.flatten →
    acceptOf w ≠ acceptValue p.secKey →
    ∃ q rest, awaitResponse date p [] pieces = some (.code .error, q, rest) ∧
      ∀ date' buffer, q.recvMessage date' buffer = some (.returned (.code .error) q, buffer)

/-- A response that has all that is asked for, as it is read: the bytes of its status code are
others than `101`, or those of its accept value are another text than the digest. -/
structure Mistaken (key : Bytes) (w : Parts) (m : HttpMessage) : Prop where
  statusCode : ∃ reason, m.startLine = .response 101 reason
  upgrade : m.headerContain (bytes "Upgrade") (bytes "websocket") = true
  connection : m.headerContain (bytes "Connection") (bytes "Upgrade") = true
  letters : toLower (kept (acceptOf w)) = toLower (acceptValue key)
  differs : statusText w = bytes "101" → acceptOf w ≠ acceptValue key

variable {p q : WebSocketProtocol} {buffer rest date : Bytes} {m : HttpMessage} {pieces : List Bytes}

/-- `startAsClient` begins with nothing received. -/
theorem requested_of_startAsClient {ip requestUri : Bytes} {port : Nat} {random : Nat → UInt8}
    {c : Call} (hstatus : p.status = .detached) (hhttp : p.http = p.http.reset)
    (h : p.startAsClient ip port random requestUri = some c) : Requested c.object := by
  cases startAsClient_startsClient h with
  | refused hne => exact absurd hstatus hne
  | started _ =>
    unfold emit
    split
    · exact ⟨rfl, hhttp⟩
    · exact ⟨rfl, hhttp⟩

/-- What the check compares is what is kept of the value. -/
theorem getHeader_accept {lim : HttpProtocol.Limits} {w : Parts} (h : ReadAs lim w m) :
    m.getHeader (bytes "Sec-WebSocket-Accept") = kept (acceptOf w) := by
  unfold HttpMessage.getHeader acceptOf
  rw [h.find_kept (by decide) (by decide)]
  cases lastField w.rawFields (bytes "Sec-WebSocket-Accept") <;> rfl

/-- What the check asks for. -/
theorem checkHandshakeResponseValid_iff {key : Bytes} :
    checkHandshakeResponseValid m key = true ↔
      (∃ reason, m.startLine = .response 101 reason) ∧
      m.headerContain (bytes "Upgrade") (bytes "websocket") = true ∧
      m.headerContain (bytes "Connection") (bytes "Upgrade") = true ∧
      toLower (m.getHeader (bytes "Sec-WebSocket-Accept")) = toLower (acceptValue key) := by
  unfold checkHandshakeResponseValid HttpMessage.headerEqual
  simp only [Bool.and_eq_true, and_assoc, caseInsensitiveEqual_iff]
  refine and_congr ?_ .rfl
  cases m.startLine with
  | request method uri => simp
  | response code reason => simp

/-- The check passes a mistaken response, too. -/
theorem Mistaken.valid {key : Bytes} {lim : HttpProtocol.Limits} {w : Parts} (hw : ReadAs lim w m)
    (h : Mistaken key w m) : checkHandshakeResponseValid m key = true :=
  checkHandshakeResponseValid_iff.mpr
    ⟨h.statusCode, h.upgrade, h.connection, (getHeader_accept hw).symm ▸ h.letters⟩

/-- A response that passes the check is mistaken for one with the digest, or is one. -/
theorem mistaken_or {key : Bytes} {lim : HttpProtocol.Limits} {w : Parts} (hw : ReadAs lim w m)
    (hvalid : checkHandshakeResponseValid m key = true) :
    Mistaken key w m ∨ (∃ reason, m.startLine = .response 101 reason) ∧
      statusText w = bytes "101" ∧ acceptOf w = acceptValue key := by
  obtain ⟨hstart, hupgrade, hconnection, hletters⟩ := checkHandshakeResponseValid_iff.mp hvalid
  by_cases hright : statusText w = bytes "101" ∧ acceptOf w = acceptValue key
  · exact .inr ⟨hstart, hright⟩
  · exact .inl ⟨hstart, hupgrade, hconnection, getHeader_accept hw ▸ hletters, not_and.mp hright⟩

/-- How `recvMessage` goes on from what the HTTP parser returns. -/
inductive Judged (p : WebSocketProtocol) :
    HttpRetCode × HttpProtocol × Bytes → Option (Call × Bytes) → Prop where
  | more {http rest} : Judged p (.waitingMoreData, http, rest)
      (some (.returned (.code .waitingMoreData) { p with http }, rest))
  | failed {http rest} : Judged p (.error, http, rest)
      (some (.returned (.code .error) { p with http, status := .pendingError }, rest))
  | refused {http m q rest} (hstate : http.state = .finished m)
      (hvalid : checkHandshakeResponseValid m p.secKey = false) (hq : q.status = .pendingError) :
      Judged p (.messageReady, http, rest) (some (.returned (.code .error) q, rest))
  | established {http m q rest} (hstate : http.state = .finished m)
      (hvalid : checkHandshakeResponseValid m p.secKey = true) :
      Judged p (.messageReady, http, rest) (some (.returned (.code .connectionEstablished) q, rest))

/-- The key that is looked up is there afterwards. -/
theorem secKey_lookup (p : WebSocketProtocol) :
    secKey (if (p.handshakeHeaders.find (bytes "Sec-WebSocket-Key")).isNone then
      p.setHandshakeHeader (bytes "Sec-WebSocket-Key") [] else p) = p.secKey := by
  split
  · rename_i hnone
    rw [Option.isNone_iff_eq_none] at hnone
    unfold secKey setHandshakeHeader
    dsimp only
    rw [hnone, SortedMap.find_insert]
    split
    · rfl
    · rw [hnone]
  · rfl

theorem recvMessage_judged (hp : p.status = .waitingHandshakeResponse)
    (hready : ∀ http rest, p.http.recvMessage buffer = (.messageReady, http, rest) →
      ∃ m, http.state = .finished m) :
    Judged p (p.http.recvMessage buffer) (p.recvMessage date buffer) := by
  have hhandle : p.handle date buffer = some (some (p.readHandshakeResponse buffer)) := by
    rw [handle, hp]
  unfold recvMessage recvLoop
  rw [hhandle]
  unfold readHandshakeResponse
  revert hready
  generalize p.http.recvMessage buffer = r
  intro hready
  obtain ⟨code, http, rest⟩ := r
  cases code with
  | waitingMoreData => exact .more
  | error => exact .failed
  | messageReady =>
    obtain ⟨m, hstate⟩ := hready http rest rfl
    dsimp only
    by_cases htype : m.messageType = .response
    · have hretrieve : http.retrieveResponse = (some m, http.reset) := by
        unfold HttpProtocol.retrieveResponse HttpProtocol.retrieve
        rw [hstate]
        exact if_pos htype
      rw [hretrieve]
      dsimp only
      have hkey := secKey_lookup { p with http := http.reset }
      unfold secKey at hkey
      dsimp only at hkey
      rw [hkey]
      cases hvalid : checkHandshakeResponseValid m p.secKey with
      | false =>
        have hvalid' := hvalid
        unfold secKey at hvalid'
        rw [hvalid']
        exact .refused hstate hvalid rfl
      | true =>
        have hvalid' := hvalid
        unfold secKey at hvalid'
        rw [hvalid']
        exact .established hstate hvalid
    · have hretrieve : http.retrieveResponse = (none, http) := by
        unfold HttpProtocol.retrieveResponse HttpProtocol.retrieve
        rw [hstate]
        exact if_neg htype
      have hvalid : checkHandshakeResponseValid m p.secKey = false := by
        rw [Bool.eq_false_iff]
        intro hvalid
        obtain ⟨⟨reason, hstart⟩, -⟩ := checkHandshakeResponseValid_iff.mp hvalid
        refine htype ?_
        unfold HttpMessage.messageType
        rw [hstart]
      rw [hretrieve]
      exact .refused hstate hvalid rfl

/-- What `recvMessage` returns for what the HTTP parser delivers. -/
def verdict (key : Bytes) : List HttpMessage × Bool → WebSocketRetCode
  | ([], false) => .waitingMoreData
  | ([], true) => .error
  | (m :: _, _) => if checkHandshakeResponseValid m key then .connectionEstablished else .error

/-- The first message that is delivered decides. -/
theorem awaitResponse_spec (date : Bytes) (hp : p.status = .waitingHandshakeResponse)
    (hhttp : Reading p.http) (pieces : List Bytes) :
    ∃ q rest, awaitResponse date p buffer pieces =
        some (.code (verdict p.secKey ((p.http.feed buffer pieces).1,
          (p.http.feed buffer pieces).2.isNone)), q, rest) ∧
      (verdict p.secKey ((p.http.feed buffer pieces).1,
        (p.http.feed buffer pieces).2.isNone) = .error → q.status = .pendingError) := by
  induction pieces generalizing p buffer with
  | nil => exact ⟨p, buffer, rfl, by simp [HttpProtocol.feed, verdict]⟩
  | cons piece pieces ih =>
    have hopen := HttpProtocol.opened_of_reading hhttp
    have hreads := @HttpProtocol.recvLoop_reads p.http (buffer ++ piece) 4
      (by cases p.http.state <;> simp [HttpProtocol.statusesLeft]) (hopen.symm ▸ hhttp)
    have hjudged := @recvMessage_judged p (buffer ++ piece) date hp (by
      intro http rest hr
      unfold HttpProtocol.recvMessage at hr
      rw [hr] at hreads
      obtain ⟨⟨m, hm, -⟩, -⟩ := hreads
      exact ⟨m, hm⟩)
    have hfirst : ∀ http rest m, p.http.recvMessage (buffer ++ piece) = (.messageReady, http, rest) →
        http.state = .finished m →
        ∃ ms, (p.http.feed buffer (piece :: pieces)).1 = m :: ms := by
      intro http rest m hr hstate
      unfold HttpProtocol.feed HttpProtocol.receive
      rw [hr]
      dsimp only
      rw [HttpProtocol.retrieveAny_finished hstate]
      dsimp only
      split
      · rename_i h
        exact ⟨_, (congrArg Prod.fst h).symm⟩
      · rename_i h
        exact ⟨_, congrArg (· ++ _) (congrArg Prod.fst h).symm⟩
    unfold awaitResponse
    generalize hr : p.http.recvMessage (buffer ++ piece) = r at hjudged
    generalize p.recvMessage date (buffer ++ piece) = received at hjudged
    cases hjudged with
    | more =>
      rename_i http rest
      unfold HttpProtocol.recvMessage at hr
      rw [hr] at hreads
      obtain ⟨q, rest', hawait, hq⟩ := @ih { p with http } rest hp hreads.2
      have hfeed : p.http.feed buffer (piece :: pieces) = http.feed rest pieces := by
        rw [HttpProtocol.feed, HttpProtocol.receive, HttpProtocol.recvMessage, hr]
        rfl
      rw [hfeed]
      exact ⟨q, rest', hawait, hq⟩
    | failed =>
      have hfeed : p.http.feed buffer (piece :: pieces) = ([], none) := by
        rw [HttpProtocol.feed, HttpProtocol.receive, hr]
      rw [hfeed]
      exact ⟨_, _, rfl, fun _ => rfl⟩
    | refused hstate hvalid hq =>
      obtain ⟨ms, hms⟩ := hfirst _ _ _ hr hstate
      rw [hms, verdict, if_neg (by simp [hvalid])]
      exact ⟨_, _, rfl, fun _ => hq⟩
    | established hstate hvalid =>
      obtain ⟨ms, hms⟩ := hfirst _ _ _ hr hstate
      rw [hms, verdict, if_pos hvalid]
      exact ⟨_, _, rfl, by simp⟩

theorem verdict_first {key : Bytes} {o : List HttpMessage × Bool} {ms : List HttpMessage}
    (h : o.1 = m :: ms) : verdict key o =
      if checkHandshakeResponseValid m key then .connectionEstablished else .error := by
  obtain ⟨messages, failed⟩ := o
  change messages = m :: ms at h
  rw [h]
  rfl

theorem verdict_none {key : Bytes} {o : List HttpMessage × Bool} (h : o.1 = []) :
    verdict key o ≠ .connectionEstablished := by
  obtain ⟨messages, failed⟩ := o
  change messages = [] at h
  rw [h]
  cases failed <;> nofun

/-- The first message that is delivered is the first bytes of the stream. -/
theorem first_readAs {http : HttpProtocol} {ms : List HttpMessage} (hreset : http = http.reset)
    (h : (outcome http pieces).1 = m :: ms) :
    ∃ w, ReadAs http.limits w m ∧ w.bytes <+: pieces.flatten := by
  obtain ⟨ws, hread, hbegins⟩ := @HttpProtocol.readAs_of_outcome http pieces
  rw [← hreset, h] at hread
  cases hread with
  | @cons w _ ws _ hw _ => exact ⟨w, hw, .trans (List.prefix_append _ _) hbegins⟩

/-- The accept value is checked as it should be exactly if the parser delivers nothing of these
pieces, or the response with which they begin is not taken for one with the digest. -/
theorem checksAccept_iff (date : Bytes) (hp : Requested p) (pieces : List Bytes) :
    ChecksAccept date p pieces ↔
      ((outcome p.http pieces).1 ≠ [] → ∀ w m, ReadAs p.http.limits w m →
        w.bytes <+: pieces.flatten → ¬ Mistaken p.secKey w m) := by
  have hreading : Reading p.http := by
    rw [hp.http]
    trivial
  obtain ⟨q, rest, hawait, hq⟩ :=
    @awaitResponse_spec p [] date hp.status hreading pieces
  change awaitResponse date p [] pieces =
    some (.code (verdict p.secKey (outcome p.http pieces)), q, rest) at hawait
  change verdict p.secKey (outcome p.http pieces) = .error → _ at hq
  have hdelivered : ∀ {w m}, ReadAs p.http.limits w m → w.bytes <+: pieces.flatten →
      (∃ ms, (outcome p.http pieces).1 = m :: ms) ∨ outcome p.http pieces = ([], true) := by
    intro w m hw hbegins
    rw [hp.http]
    exact HttpProtocol.outcome_of_readAs hw hbegins
  constructor
  · intro h hsome w m hw hbegins hwrong
    obtain ⟨ms, hfirst⟩ | hfailed := hdelivered hw hbegins
    · rw [verdict_first hfirst, if_pos (hwrong.valid hw)] at hawait
      by_cases hdigest : acceptOf w = acceptValue p.secKey
      · -- the digest is there, so that the status code is not
        obtain ⟨w', m', reason, hw', hbegins', -, hstatus, -⟩ := h.established q rest hawait
        refine hwrong.differs ?_ hdigest
        unfold statusText at hstatus ⊢
        rwa [hw.startLine_eq hw' hbegins hbegins']
      · obtain ⟨q', rest', herror, -⟩ := h.refused w m hw hbegins hdigest
        rw [hawait] at herror
        cases herror
    · exact hsome (by rw [hfailed])
  · intro hnone
    constructor
    · intro q' rest' hestablished
      rw [hawait] at hestablished
      cases hmessages : (outcome p.http pieces).1 with
      | nil =>
        injection hestablished with he
        injection he with he
        injection he with he
        exact absurd he (verdict_none hmessages)
      | cons m ms =>
        have hvalid : checkHandshakeResponseValid m p.secKey = true := by
          by_contra hvalid
          rw [verdict_first hmessages, if_neg hvalid] at hestablished
          cases hestablished
        obtain ⟨w, hw, hbegins⟩ := first_readAs hp.http hmessages
        obtain hwrong | ⟨⟨reason, hstart⟩, hright⟩ := mistaken_or hw hvalid
        · exact absurd hwrong (hnone (by rw [hmessages]; exact List.cons_ne_nil _ _) w m hw hbegins)
        · exact ⟨w, m, reason, hw, hbegins, hstart, hright⟩
    · intro w m hw hbegins hdiffers
      have herror : verdict p.secKey (outcome p.http pieces) = .error := by
        obtain ⟨ms, hfirst⟩ | hfailed := hdelivered hw hbegins
        · rw [verdict_first hfirst, if_neg]
          intro hvalid
          obtain hwrong | ⟨-, -, hdigest⟩ := mistaken_or hw hvalid
          · exact hnone (by rw [hfirst]; exact List.cons_ne_nil _ _) w m hw hbegins hwrong
          · exact hdiffers hdigest
        · rw [hfailed]
          rfl
      rw [herror] at hawait
      exact ⟨q, rest, hawait, fun _ _ => recvMessage_idle (.inr (.inr (.inr (hq herror))))⟩

/-- A client whose key is known. -/
def sampleClient : WebSocketProtocol :=
  setHandshakeHeader { construct true with status := .waitingHandshakeResponse, isClient := true }
    (bytes "Sec-WebSocket-Key") (bytes "dGhlIHNhbXBsZSBub25jZQ==")

/-- A response with an accept value. -/
def responseWith (accept : Bytes) : Bytes :=
  bytes "HTTP/1.1 101 Switching Protocols\r\nUpgrade: websocket\r\nConnection: Upgrade\r\n" ++
  bytes "Sec-WebSocket-Accept: " ++ accept ++ bytes "\r\nContent-Length: 0\r\n\r\n"

/-- The response comes in two pieces. -/
theorem checksAccept_iff_sample :
    let pieces := [(responseWith (bytes "s3pPLMBiTxaQ9kYGzzhZRbK+xOo=")).take 100,
      (responseWith (bytes "s3pPLMBiTxaQ9kYGzzhZRbK+xOo=")).drop 100]
    ChecksAccept [] sampleClient pieces ↔
      ((outcome sampleClient.http pieces).1 ≠ [] → ∀ w m, ReadAs sampleClient.http.limits w m →
        w.bytes <+: pieces.flatten → ¬ Mistaken sampleClient.secKey w m) :=
  checksAccept_iff [] ⟨rfl, rfl⟩ _

/-- The digest with other letters is taken for the digest. -/
theorem not_checksAccept : ¬ ∀ (date : Bytes) (p : WebSocketProtocol) (pieces : List Bytes),
    Requested p → ChecksAccept date p pieces := by
  intro h
  let pieces := [responseWith (bytes "S3PPLMBITXAQ9KYGZZHZRBK+XOO=")]
  have hfirst : (outcome sampleClient.http pieces).1.head?.any
      (fun m => m.getHeader (bytes "Sec-WebSocket-Accept") ≠
        kept (acceptValue sampleClient.secKey)) = true := by
    decide +kernel
  have hcode : (awaitResponse [] sampleClient [] pieces).map (fun o => o.1) =
      some (.code .connectionEstablished) := by
    decide +kernel
  obtain ⟨m, hm, hkept⟩ := (Option.any_eq_true _ _).mp hfirst
  obtain ⟨ms, hms⟩ := List.head?_eq_some_iff.mp hm
  obtain ⟨w, hw, hbegins⟩ := @first_readAs _ _ sampleClient.http _ rfl hms
  have hdiffers : acceptOf w ≠ acceptValue sampleClient.secKey := fun he =>
    of_decide_eq_true hkept (he ▸ getHeader_accept hw)
  obtain ⟨q, rest, herror, -⟩ := (h [] sampleClient pieces ⟨rfl, rfl⟩).refused w m hw hbegins
    hdiffers
  rw [herror] at hcode
  cases hcode

/-- So is a value that begins with the digest and goes on behind a NUL. -/
example : (awaitResponse [] sampleClient []
    [responseWith (bytes "s3pPLMBiTxaQ9kYGzzhZRbK+xOo=\x00evil")]).map (fun o => o.1) =
      some (.code .connectionEstablished) := by
  decide +kernel

end WebSocketProtocol

end Brickred
