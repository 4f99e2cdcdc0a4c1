import Mathlib.Data.List.Nodup
import Brickred.Protocol.HttpAwait
import Brickred.Protocol.HttpHeaders
import Brickred.Protocol.WebSocketSession

/-!
# A client and a server that shake hands

What the server makes of the bytes of `startAsClient`, and the client of the response, in
whatever pieces they come. Both messages have headers and nothing else, and go through
`writeMessage` and the HTTP parser.
-/

namespace Brickred

open StringUtil (toLower)

namespace WebSocketProtocol

open HttpMessage (Token Extra Composed)
open HttpProtocol (Within ZeroLength Bare headed)

/-- The calls of `recvMessage`, one for each piece, until one does not wait for more: what
they send, what the last one returns, the object, and what is unread. -/
def await (date : Bytes) (p : WebSocketProtocol) (buffer : Bytes) :
    List Bytes → Option (List Output × Result × WebSocketProtocol × Bytes)
  | [] => some ([], .code .waitingMoreData, p, buffer)
  | piece :: pieces => do
    let (c, rest) ← p.recvMessage date (buffer ++ piece)
    match c.finish with
    | (sent, .code .waitingMoreData, q) =>
      let (sent', outcome) ← await date q rest pieces
      some (sent ++ sent', outcome)
    | (sent, result, q) => some (sent, result, q, rest ++ pieces.flatten)

/-- An object on which nothing but callbacks and handshake headers is set. -/
structure Fresh (p : WebSocketProtocol) : Prop where
  status : p.status = .detached
  outputCb : p.outputCb = true
  http : p.http = .construct

/-- The random key of a client. -/
def randomKey (random : Nat → UInt8) : Bytes := Codec.base64Encode ((List.range 16).map random)

/-- `Host`, if it is not given. -/
def hostOf (ip : Bytes) (port : Nat) : Bytes := ip ++ bytes ":" ++ StringUtil.toString port

/-- The handshake headers of a client that has started. -/
def startedHeaders (p : WebSocketProtocol) (ip : Bytes) (port : Nat) (random : Nat → UInt8) :
    HeaderMap :=
  (p.handshakeHeaders.insert (bytes "Sec-WebSocket-Key") (randomKey random)).insert
    (bytes "Host") (hostOf ip port)

/-- The headers that both sides begin with. -/
def baseHeaders (key value : Bytes) : HeaderMap :=
  ((SortedMap.empty.insert (bytes "Upgrade") (bytes "websocket")).insert
    (bytes "Connection") (bytes "Upgrade")).insert key value

/-- What a client sends. -/
def clientRequest (p : WebSocketProtocol) (ip : Bytes) (port : Nat) (random : Nat → UInt8)
    (requestUri : Bytes) : HttpMessage where
  startLine := .request .get requestUri
  version := .http11
  headers := (baseHeaders (bytes "Sec-WebSocket-Version") (bytes "13")).insertAll
    (p.startedHeaders ip port random).entries
  body := []

/-- The headers that a client sends by itself. -/
def requestOwn (key host : Bytes) : List (Bytes × Bytes) :=
  [(bytes "Sec-WebSocket-Key", key), (bytes "Host", host), (bytes "Connection", bytes "Upgrade"),
    (bytes "Sec-WebSocket-Version", bytes "13"), (bytes "Upgrade", bytes "websocket")]

/-- The headers that a server sends by itself. -/
def responseOwn (accept : Bytes) : List (Bytes × Bytes) :=
  [(bytes "Connection", bytes "Upgrade"), (bytes "Sec-WebSocket-Accept", accept),
    (bytes "Upgrade", bytes "websocket")]

def requestNames : List Bytes := (requestOwn [] []).map Prod.fst

def responseNames : List Bytes := (responseOwn []).map Prod.fst

/-- A client and a server that shake hands: the client sends a request; whichever way it
comes to the server in pieces, the server is connected with nothing left of it and has sent
a response; and whichever way that comes to the client, the client is connected, too, with
nothing left of it. -/
def ShakeHands (date : Bytes) (p q : WebSocketProtocol) (ip : Bytes) (port : Nat)
    (random : Nat → UInt8) (requestUri : Bytes) : Prop :=
  ∃ request p₁, p.startAsClient ip port random requestUri =
      some (.output (.handshake request) .started p₁) ∧
    ∀ pieces : List Bytes, pieces.flatten = request →
      ∃ response q₁, await date q.startAsServer.2 [] pieces =
          some ([.handshake response], .code .connectionEstablished, q₁, []) ∧
        q₁.status = .connected ∧
        ∀ pieces' : List Bytes, pieces'.flatten = response →
          ∃ p₂, await date (p₁.resume .started).2 [] pieces' =
              some ([], .code .connectionEstablished, p₂, []) ∧
            p₂.status = .connected

variable {p q : WebSocketProtocol} {ip : Bytes} {port : Nat} {random : Nat → UInt8}
  {requestUri date buffer : Bytes}

/-! ## The headers of a handshake -/

theorem plain_base64 (x : Bytes) : Plain (Codec.base64Encode x) := by
  have hchar : ∀ c ∈ Codec.base64Encode x, c ≠ 13 ∧ c ≠ 10 ∧ c ≠ 0 := by
    intro c hc
    have htable : ∀ c ∈ Codec.encodeTable, c ≠ 13 ∧ c ≠ 10 ∧ c ≠ 0 := by
      decide +kernel
    obtain hc | rfl := Codec.base64Encode_chars x c hc
    · exact htable c hc
    · decide
  exact ⟨fun h => (hchar _ h).1 rfl, fun h => (hchar _ h).2.1 rfl, fun h => (hchar _ h).2.2 rfl⟩

theorem trimmed_base64 (x : Bytes) : Trimmed (Codec.base64Encode x) := by
  have hchar : ∀ c ∈ Codec.base64Encode x, StringUtil.isBlank c = false := by
    intro c hc
    have htable : ∀ c ∈ Codec.encodeTable, StringUtil.isBlank c = false := by
      decide +kernel
    obtain hc | rfl := Codec.base64Encode_chars x c hc
    · exact htable c hc
    · rfl
  exact ⟨fun c hc => hchar c (List.mem_of_mem_head? hc),
    fun c hc => hchar c (List.mem_of_mem_getLast? hc)⟩

theorem length_randomKey (random : Nat → UInt8) : (randomKey random).length = 24 := by
  unfold randomKey
  rw [Codec.length_base64Encode (by simp) (by simp)]
  simp

theorem plain_hostOf (hip : Plain ip) (port : Nat) : Plain (hostOf ip port) := by
  have hnot : ∀ {c : UInt8}, c ∉ ip → c ≠ 58 → c.toNat < 48 → c ∉ hostOf ip port := by
    intro c hip hcolon hlt
    have hport := not_mem_toString port (.inl hlt)
    have hcolon' : c ∉ bytes ":" := fun h => hcolon (List.mem_singleton.mp h)
    simp only [hostOf, List.mem_append, hip, hcolon', hport, or_self, not_false_eq_true]
  exact ⟨hnot hip.1 (by decide) (by decide), hnot hip.2.1 (by decide) (by decide),
    hnot hip.2.2 (by decide) (by decide)⟩

/-- Headers whose names no other header has, and the others. -/
theorem composed_insertAll {extra : HeaderMap} (rest : HeaderMap) (own : List (Bytes × Bytes))
    (base : HeaderMap)
    (names names' : List Bytes) (hnames : own.map Prod.fst = names)
    (hnames' : base.entries.map Prod.fst = names')
    (hrest : ∀ e, e ∈ rest.entries ↔ e ∈ own ∨ e ∈ extra.entries)
    (hextra : Extra (names ++ names') extra) (htoken : ∀ b ∈ names', Token b)
    (hdistinct : ∀ b ∈ names', ∀ o ∈ names, toLower b ≠ toLower o)
    (hlength : ∀ o ∈ names ++ names',
      toLower (HttpMessage.fieldName o) ≠ toLower (bytes "Content-Length")) :
    Composed (own ++ base.entries) extra (base.insertAll rest.entries) := by
  have hall : (own ++ base.entries).map Prod.fst = names ++ names' := by
    rw [List.map_append, hnames, hnames']
  refine .of_mem (fun e => ?_) (hall ▸ hextra) fun o ho => ?_
  · rw [SortedMap.mem_insertAll rest.sorted ?_, hrest, List.mem_append, or_right_comm]
    intro e he b hb heq
    have heq' := HttpMessage.equiv_iff.mp heq
    have hb' : b.1 ∈ names' := hnames' ▸ List.mem_map_of_mem hb
    obtain hown | hother := (hrest e).mp he
    · exact hdistinct b.1 hb' e.1 (hnames ▸ List.mem_map_of_mem hown) heq'
    · refine hextra.others e hother b.1 (List.mem_append_right _ hb') ?_
      rw [HttpMessage.fieldName_eq (htoken b.1 hb') heq'.symm, heq']
  · exact hlength o.1 (hall ▸ List.mem_map_of_mem ho)

theorem composed_request (hextra : Extra requestNames p.handshakeHeaders) :
    Composed (requestOwn (randomKey random) (hostOf ip port)) p.handshakeHeaders
      (p.clientRequest ip port random requestUri).headers := by
  have hkey : p.handshakeHeaders.Absent (bytes "Sec-WebSocket-Key") :=
    hextra.absent (by decide) (by decide)
  have hhost : (p.handshakeHeaders.insert (bytes "Sec-WebSocket-Key") (randomKey random)).Absent
      (bytes "Host") := by
    intro e he heq
    obtain rfl | he := (SortedMap.mem_insert_absent hkey).mp he
    · have hne : toLower (bytes "Sec-WebSocket-Key") ≠ toLower (bytes "Host") := by decide
      exact hne (HttpMessage.equiv_iff.mp heq)
    · exact hextra.absent (by decide) (by decide) e he heq
  refine composed_insertAll (p.startedHeaders ip port random)
    [(bytes "Sec-WebSocket-Key", randomKey random), (bytes "Host", hostOf ip port)]
    (baseHeaders (bytes "Sec-WebSocket-Version") (bytes "13"))
    [bytes "Sec-WebSocket-Key", bytes "Host"]
    [bytes "Connection", bytes "Sec-WebSocket-Version", bytes "Upgrade"] rfl rfl (fun e => ?_)
    hextra (by decide) (by decide) (by decide)
  rw [startedHeaders, SortedMap.mem_insert_absent hhost, SortedMap.mem_insert_absent hkey,
    List.mem_cons, List.mem_singleton, ← or_assoc, or_comm (a := e = (bytes "Host", _))]

theorem composed_response (hextra : Extra responseNames q.handshakeHeaders) (hdate : Plain date)
    (request : HttpMessage) :
    Composed (responseOwn (acceptValue (request.getHeader (bytes "Sec-WebSocket-Key"))))
      q.handshakeHeaders (q.successResponse date request).headers := by
  have hcomposed := composed_insertAll q.handshakeHeaders []
    (baseHeaders (bytes "Sec-WebSocket-Accept")
      (acceptValue (request.getHeader (bytes "Sec-WebSocket-Key"))))
    [] [bytes "Connection", bytes "Sec-WebSocket-Accept", bytes "Upgrade"] rfl rfl
    (fun e => by rw [or_iff_right List.not_mem_nil]) hextra (by decide) (by decide) (by decide)
  unfold successResponse
  dsimp only
  split
  · refine Composed.insert hcomposed (by decide) ⟨by decide, by decide, by decide⟩ hdate ?_
      (by decide)
    have hnames : ∀ o ∈ responseNames, toLower (bytes "Date") ≠ toLower o := by decide
    intro o ho
    have hname : o.1 ∈ (responseOwn
        (acceptValue (request.getHeader (bytes "Sec-WebSocket-Key")))).map Prod.fst :=
      List.mem_map_of_mem ho
    exact hnames o.1 hname
  · exact hcomposed

theorem plain_requestOwn (hip : Plain ip) :
    ∀ o ∈ requestOwn (randomKey random) (hostOf ip port), Plain o.1 ∧ Plain o.2 := by
  have hnames : ∀ name ∈ requestNames, (13 : UInt8) ∉ name ∧ (10 : UInt8) ∉ name ∧
      (0 : UInt8) ∉ name := by decide
  have hvalues : ∀ value ∈ [bytes "Upgrade", bytes "13", bytes "websocket"],
      (13 : UInt8) ∉ value ∧ (10 : UInt8) ∉ value ∧ (0 : UInt8) ∉ value := by decide
  simp only [requestOwn, List.forall_mem_cons]
  exact ⟨⟨hnames _ (by decide), plain_base64 _⟩, ⟨hnames _ (by decide), plain_hostOf hip port⟩,
    ⟨hnames _ (by decide), hvalues _ (by decide)⟩, ⟨hnames _ (by decide), hvalues _ (by decide)⟩,
    ⟨hnames _ (by decide), hvalues _ (by decide)⟩, nofun⟩

theorem plain_responseOwn (key : Bytes) :
    ∀ o ∈ responseOwn (acceptValue key), Plain o.1 ∧ Plain o.2 := by
  have hnames : ∀ name ∈ responseNames, (13 : UInt8) ∉ name ∧ (10 : UInt8) ∉ name ∧
      (0 : UInt8) ∉ name := by decide
  have hvalues : ∀ value ∈ [bytes "Upgrade", bytes "websocket"],
      (13 : UInt8) ∉ value ∧ (10 : UInt8) ∉ value ∧ (0 : UInt8) ∉ value := by decide
  simp only [responseOwn, List.forall_mem_cons]
  exact ⟨⟨hnames _ (by decide), hvalues _ (by decide)⟩, ⟨hnames _ (by decide), plain_base64 _⟩,
    ⟨hnames _ (by decide), hvalues _ (by decide)⟩, nofun⟩

theorem bare_request (hip : Plain ip) (huri : (32 : UInt8) ∉ requestUri ∧ Plain requestUri)
    (hextra : Extra requestNames p.handshakeHeaders)
    (hfit : Within .construct (p.clientRequest ip port random requestUri)) :
    Bare .construct (p.clientRequest ip port random requestUri) where
  start := HttpProtocol.lineStart_of_plain ⟨by decide, huri⟩
  version := show Version.http11 ≠ .unknown by decide
  headers := (composed_request hextra).line (plain_requestOwn hip)
  headers_ne := List.ne_nil_of_mem
    ((@composed_request p ip port random requestUri hextra).own_mem _ (.head _))
  body := rfl
  within := hfit

theorem startLine_successResponse (date : Bytes) (request : HttpMessage) :
    (q.successResponse date request).startLine = .response 101 (bytes "Switching Protocols") ∧
      (q.successResponse date request).version = .http11 ∧
      (q.successResponse date request).body = [] := by
  unfold successResponse
  dsimp only
  split
  · exact ⟨rfl, rfl, rfl⟩
  · exact ⟨rfl, rfl, rfl⟩

theorem bare_response {request : HttpMessage} (hdate : Plain date)
    (hextra : Extra responseNames q.handshakeHeaders)
    (hfit : Within .construct (q.successResponse date request)) :
    Bare .construct (q.successResponse date request) := by
  have hcomposed := composed_response hextra hdate request
  obtain ⟨hstart, hversion, hbody⟩ := @startLine_successResponse q date request
  refine ⟨?_, ?_, hcomposed.line (plain_responseOwn _),
    List.ne_nil_of_mem (hcomposed.own_mem _ (.head _)), hbody, hfit⟩
  · rw [hstart]
    exact HttpProtocol.lineStart_of_plain
      ⟨by decide, by decide, by decide, by decide, by decide⟩
  · rw [hversion]
    decide

/-! ## What is checked -/

/-- The key and the digest are read back as they are. -/
theorem field_base64 {name : Bytes} (hname : name ∈ requestNames ++ responseNames) (x : Bytes) :
    HttpMessage.field (name, Codec.base64Encode x) = (name, Codec.base64Encode x) := by
  have hnames : ∀ name ∈ requestNames ++ responseNames, name ≠ [] ∧ (58 : UInt8) ∉ name ∧
      Trimmed name ∧ (13 : UInt8) ∉ name ∧ (10 : UInt8) ∉ name ∧ (0 : UInt8) ∉ name := by
    decide
  obtain ⟨hne, hcolon, htrimmed, hplain⟩ := hnames name hname
  exact HttpProtocol.field_eq ⟨hne, hcolon, htrimmed, hplain, trimmed_base64 x, plain_base64 x⟩

/-- What the request of a client is read as. -/
theorem request_valid (hextra : Extra requestNames p.handshakeHeaders) :
    checkHandshakeRequestValid (headed (p.clientRequest ip port random requestUri)) = true ∧
      (headed (p.clientRequest ip port random requestUri)).getHeader
        (bytes "Sec-WebSocket-Key") = randomKey random := by
  have hcomposed := @composed_request p ip port random requestUri hextra
  have htoken : ∀ name ∈ requestNames, Token name := by decide
  have hnodup : (requestNames.map toLower).Nodup := by decide
  have hfind : ∀ o ∈ requestOwn (randomKey random) (hostOf ip port),
      (headed (p.clientRequest ip port random requestUri)).headers.find o.1 =
        some (HttpMessage.field o).2 := by
    intro o ho
    refine hcomposed.find_own (fun o ho => ?_) (List.inj_on_of_nodup_map hnodup) ho
    have hname : o.1 ∈ (requestOwn (randomKey random) (hostOf ip port)).map Prod.fst :=
      List.mem_map_of_mem ho
    exact htoken o.1 hname
  simp only [requestOwn, List.forall_mem_cons] at hfind
  obtain ⟨hkey, hhost, hconnection, hversion, hupgrade, -⟩ := hfind
  have hfield : (HttpMessage.field (bytes "Sec-WebSocket-Key", randomKey random)).2 =
      randomKey random := congrArg Prod.snd (field_base64 (by decide) _)
  rw [hfield] at hkey
  unfold checkHandshakeRequestValid HttpMessage.hasHeader HttpMessage.headerContain
    HttpMessage.headerEqual HttpMessage.getHeader
  rw [hkey, hhost, hconnection, hversion, hupgrade]
  simp only [Option.getD_some, Option.isSome_some, length_randomKey, Bool.true_and, and_true]
  decide

theorem response_valid {request : HttpMessage} (hdate : Plain date)
    (hextra : Extra responseNames q.handshakeHeaders) :
    checkHandshakeResponseValid (headed (q.successResponse date request))
      (request.getHeader (bytes "Sec-WebSocket-Key")) = true := by
  have hcomposed := composed_response hextra hdate request
  have htoken : ∀ name ∈ responseNames, Token name := by decide
  have hnodup : (responseNames.map toLower).Nodup := by decide
  have hfind : ∀ o ∈ responseOwn (acceptValue (request.getHeader (bytes "Sec-WebSocket-Key"))),
      (headed (q.successResponse date request)).headers.find o.1 =
        some (HttpMessage.field o).2 := by
    intro o ho
    refine hcomposed.find_own (fun o ho => ?_) (List.inj_on_of_nodup_map hnodup) ho
    have hname : o.1 ∈ (responseOwn
        (acceptValue (request.getHeader (bytes "Sec-WebSocket-Key")))).map Prod.fst :=
      List.mem_map_of_mem ho
    exact htoken o.1 hname
  simp only [responseOwn, List.forall_mem_cons] at hfind
  obtain ⟨hconnection, haccept, hupgrade, -⟩ := hfind
  have hfield : (HttpMessage.field (bytes "Sec-WebSocket-Accept",
      acceptValue (request.getHeader (bytes "Sec-WebSocket-Key")))).2 =
      acceptValue (request.getHeader (bytes "Sec-WebSocket-Key")) :=
    congrArg Prod.snd (field_base64 (by decide) _)
  rw [hfield] at haccept
  have hstart : (headed (q.successResponse date request)).startLine =
      .response 101 (bytes "Switching Protocols") := (startLine_successResponse date request).1
  unfold checkHandshakeResponseValid HttpMessage.headerContain HttpMessage.headerEqual
  rw [hstart]
  unfold HttpMessage.getHeader at haccept ⊢
  rw [haccept, hconnection, hupgrade]
  simp only [Option.getD_some, Bool.and_eq_true, StringUtil.caseInsensitiveEqual_iff, and_true]
  decide

theorem startAsClient_eq (hp : Fresh p) (hextra : Extra requestNames p.handshakeHeaders) :
    p.startAsClient ip port random requestUri =
      sendHandshake { p with status := .waitingHandshakeResponse, random := fun i => random (i + 16),
                             isClient := true, handshakeHeaders := p.startedHeaders ip port random }
        (p.clientRequest ip port random requestUri) .started := by
  have hkey : p.handshakeHeaders.find (bytes "Sec-WebSocket-Key") = none :=
    SortedMap.find_absent (hextra.absent (by decide) (by decide))
  have hhost : (p.handshakeHeaders.insert (bytes "Sec-WebSocket-Key") (randomKey random)).find
      (bytes "Host") = none := by
    rw [SortedMap.find_insert, if_neg (by decide)]
    exact SortedMap.find_absent (hextra.absent (by decide) (by decide))
  unfold startAsClient
  rw [if_neg (by simp [hp.status])]
  dsimp only
  rw [hkey]
  simp only [Option.isNone_none, if_true, draw, setHandshakeHeader]
  rw [if_pos ?_]
  · rfl
  · exact Option.isNone_iff_eq_none.mpr hhost

/-! ## Waiting for a handshake -/

/-- What comes of what the HTTP parser returns. -/
structure Answers (date : Bytes) (p : WebSocketProtocol)
    (answer : HttpRetCode → HttpProtocol → Option Call) : Prop where
  recv : ∀ http buffer, recvMessage { p with http } date buffer =
    (answer (http.recvMessage buffer).1 (http.recvMessage buffer).2.1).map fun c =>
      (c, (http.recvMessage buffer).2.2)
  waits : ∀ http, answer .waitingMoreData http =
    some (.returned (.code .waitingMoreData) { p with http })
  decides : ∀ ret http c, ret ≠ .waitingMoreData → answer ret http = some c →
    c.finish.2.1 ≠ .code .waitingMoreData

/-- A piece that decides nothing is followed by the next. -/
theorem await_more {piece rest : Bytes} {pieces : List Bytes}
    (h : p.recvMessage date (buffer ++ piece) =
      some (.returned (.code .waitingMoreData) q, rest)) :
    await date p buffer (piece :: pieces) = await date q rest pieces := by
  rw [await, h]
  show (await date q rest pieces).bind (fun r => some ([] ++ r.1, r.2)) = _
  cases await date q rest pieces <;> rfl

/-- A piece that decides ends the wait. -/
theorem await_decided {piece rest : Bytes} {pieces : List Bytes} {c : Call}
    (h : p.recvMessage date (buffer ++ piece) = some (c, rest))
    (hne : c.finish.2.1 ≠ .code .waitingMoreData) :
    await date p buffer (piece :: pieces) =
      some (c.finish.1, c.finish.2.1, c.finish.2.2, rest ++ pieces.flatten) := by
  rw [await, h, Option.bind_eq_bind, Option.bind_some]
  dsimp only
  generalize c.finish = f at hne ⊢
  obtain ⟨sent, result, q⟩ := f
  split
  next heq =>
    cases heq
    exact absurd rfl hne
  next heq =>
    cases heq
    rfl

/-- Waiting for a handshake is waiting for a message. -/
theorem Answers.await {answer : HttpRetCode → HttpProtocol → Option Call}
    (h : Answers date p answer) (http : HttpProtocol) (buffer : Bytes) (pieces : List Bytes) :
    await date { p with http } buffer pieces =
      (answer (http.await buffer pieces).1 (http.await buffer pieces).2.1).map fun c =>
        (c.finish.1, c.finish.2.1, c.finish.2.2, (http.await buffer pieces).2.2) := by
  induction pieces generalizing http buffer with
  | nil =>
    unfold HttpProtocol.await
    rw [h.waits]
    rfl
  | cons piece pieces ih =>
    have hrecv := h.recv http (buffer ++ piece)
    unfold HttpProtocol.await
    generalize http.recvMessage (buffer ++ piece) = r at hrecv
    obtain ⟨code, http', rest⟩ := r
    dsimp only at hrecv ⊢
    cases code with
    | waitingMoreData =>
      rw [h.waits] at hrecv
      exact (await_more hrecv).trans (ih http' rest)
    | error | messageReady =>
      dsimp only
      cases ha : answer _ http' with
      | none =>
        rw [ha] at hrecv
        rw [WebSocketProtocol.await, hrecv]
        rfl
      | some c =>
        rw [ha] at hrecv
        exact await_decided hrecv (h.decides _ http' c (by simp) ha)

/-- What `readHandshakeRequest` makes of what the HTTP parser returns. -/
def answerRequest (date : Bytes) (p : WebSocketProtocol) :
    HttpRetCode → HttpProtocol → Option Call
  | .waitingMoreData, http => some (.returned (.code .waitingMoreData) { p with http })
  | .error, http => some (sendHandshakeErrorResponse { p with http })
  | .messageReady, http =>
    match http.retrieveRequest with
    | (none, http) => some (sendHandshakeErrorResponse { p with http })
    | (some request, http) =>
      if checkHandshakeRequestValid request = false then
        some (sendHandshakeErrorResponse { p with http })
      else sendHandshake { p with http } (p.successResponse date request) .accepted

/-- What `readHandshakeResponse` makes of what the HTTP parser returns. -/
def answerResponse (p : WebSocketProtocol) : HttpRetCode → HttpProtocol → Option Call
  | .waitingMoreData, http => some (.returned (.code .waitingMoreData) { p with http })
  | .error, http => some (.returned (.code .error) { p with http, status := .pendingError })
  | .messageReady, http =>
    match http.retrieveResponse with
    | (none, http) => some (.returned (.code .error) { p with http, status := .pendingError })
    | (some response, http) =>
      let p :=
        if (p.handshakeHeaders.find (bytes "Sec-WebSocket-Key")).isNone then
          setHandshakeHeader { p with http } (bytes "Sec-WebSocket-Key") []
        else { p with http }
      if checkHandshakeResponseValid response
          ((p.handshakeHeaders.find (bytes "Sec-WebSocket-Key")).getD []) = false then
        some (.returned (.code .error) { p with status := .pendingError })
      else
        some (.returned (.code .connectionEstablished)
          { p with status := .connected, retCode := .connectionEstablished })

theorem finish_error (o : Output) : (p.emit o .refused).finish.2.1 = .code .error := by
  unfold emit
  split <;> rfl

theorem answersRequest (date : Bytes) (hp : p.status = .waitingHandshakeRequest) :
    Answers date p (answerRequest date p) where
  recv http buffer := by
    have hhandle : handle { p with http } date buffer =
        (readHandshakeRequest { p with http } date buffer).map some := by
      unfold handle
      dsimp only
      rw [hp]
    unfold recvMessage recvLoop
    rw [hhandle]
    unfold readHandshakeRequest
    dsimp only
    generalize http.recvMessage buffer = r
    obtain ⟨code, http', rest⟩ := r
    cases code with
    | waitingMoreData | error => rfl
    | messageReady =>
      unfold answerRequest
      dsimp only
      obtain ⟨message, http''⟩ := http'.retrieveRequest
      cases message with
      | none => rfl
      | some request =>
        dsimp only
        cases checkHandshakeRequestValid request with
        | false => rfl
        | true =>
          rw [if_neg (by decide), if_neg (by decide)]
          show ((((sendHandshake { p with http := http'' } (p.successResponse date request)
            .accepted).map fun c => Handler.call c rest).map some).bind _) = _
          cases sendHandshake { p with http := http'' } (p.successResponse date request)
              .accepted with
          | none => rfl
          | some c => rfl
  waits http := rfl
  decides ret http c hret hc := by
    cases ret with
    | waitingMoreData => exact absurd rfl hret
    | error =>
      cases hc
      rw [sendHandshakeErrorResponse, finish_error]
      simp
    | messageReady =>
      unfold answerRequest at hc
      dsimp only at hc
      split at hc
      · cases hc
        rw [sendHandshakeErrorResponse, finish_error]
        simp
      · split at hc
        · cases hc
          rw [sendHandshakeErrorResponse, finish_error]
          simp
        · obtain ⟨text, rfl⟩ := sendHandshake_emit hc
          unfold emit
          split <;> rintro ⟨⟩

theorem answersResponse (date : Bytes) (hp : p.status = .waitingHandshakeResponse) :
    Answers date p (answerResponse p) where
  recv http buffer := by
    have hhandle : handle { p with http } date buffer =
        some (some (readHandshakeResponse { p with http } buffer)) := by
      unfold handle
      dsimp only
      rw [hp]
    unfold recvMessage recvLoop
    rw [hhandle]
    unfold readHandshakeResponse
    dsimp only
    generalize http.recvMessage buffer = r
    obtain ⟨code, http', rest⟩ := r
    cases code with
    | waitingMoreData | error => rfl
    | messageReady =>
      unfold answerResponse
      dsimp only
      obtain ⟨message, http''⟩ := http'.retrieveResponse
      cases message with
      | none => rfl
      | some response =>
        dsimp only
        split
        · split
          · rfl
          · rfl
        · split
          · rfl
          · rfl
  waits http := rfl
  decides ret http c hret hc := by
    cases ret with
    | waitingMoreData => exact absurd rfl hret
    | error =>
      cases hc
      rintro ⟨⟩
    | messageReady =>
      unfold answerResponse at hc
      dsimp only at hc
      split at hc
      · cases hc
        rintro ⟨⟩
      · split at hc
        · split at hc
          · cases hc
            rintro ⟨⟩
          · cases hc
            rintro ⟨⟩
        · split at hc
          · cases hc
            rintro ⟨⟩
          · cases hc
            rintro ⟨⟩

/-! ## The server -/

theorem retrieve_finished {http : HttpProtocol} {m : HttpMessage} {type : MessageType}
    (hstate : http.state = .finished m) (htype : m.messageType = type) :
    http.retrieve type = (some m, http.reset) := by
  unfold HttpProtocol.retrieve
  rw [hstate]
  exact if_pos htype

theorem sendHandshake_eq {message : HttpMessage} {k : Pending} (hcb : p.outputCb = true)
    (hbare : Bare .construct message) :
    p.sendHandshake message k = some (.output (.handshake (HttpProtocol.wire message)) k p) := by
  unfold sendHandshake
  rw [if_pos hcb, hbare.sendMessage_eq]
  rfl

/-- A message that is complete is needed for a handshake. -/
theorem established_ready {answer : HttpRetCode → HttpProtocol → Option Call}
    (h : Answers date p answer)
    (herror : ∀ http c, answer .error http = some c → c.finish.2.1 = .code .error)
    {http : HttpProtocol} {pieces : List Bytes} {sent : List Output} {rest : Bytes}
    (he : await date { p with http } buffer pieces =
      some (sent, .code .connectionEstablished, q, rest)) :
    (http.await buffer pieces).1 = .messageReady := by
  rw [h.await] at he
  obtain ⟨c, hc, he⟩ := Option.map_eq_some_iff.mp he
  have hresult : c.finish.2.1 = .code .connectionEstablished := congrArg (fun r => r.2.1) he
  cases hcode : (http.await buffer pieces).1 with
  | messageReady => rfl
  | waitingMoreData =>
    rw [hcode, h.waits] at hc
    cases hc
    cases hresult
  | error =>
    rw [hcode] at hc
    rw [herror _ _ hc] at hresult
    cases hresult

variable {s : WebSocketProtocol} {m : HttpMessage} {http : HttpProtocol} {pieces : List Bytes}

theorem answerRequest_ready (hstate : http.state = .finished m) (htype : m.messageType = .request)
    (hvalid : checkHandshakeRequestValid m = true) (hcb : s.outputCb = true)
    (hresponse : Bare .construct (s.successResponse date m)) :
    answerRequest date s .messageReady http =
      some (.output (.handshake (HttpProtocol.wire (s.successResponse date m))) .accepted
        { s with http := http.reset }) := by
  have hretrieve : http.retrieveRequest = (some m, http.reset) := retrieve_finished hstate htype
  unfold answerRequest
  dsimp only
  rw [hretrieve]
  dsimp only
  rw [hvalid, if_neg (by decide)]
  exact sendHandshake_eq hcb hresponse

/-- A server that is sent a request which says that it has no body. -/
theorem server_ready (hs : s.status = .waitingHandshakeRequest) (hhttp : s.http = .construct)
    (hcb : s.outputCb = true) (hm : Bare .construct m)
    (hzero : ZeroLength (HttpMessage.reread m.headers))
    (htype : (headed m).messageType = .request)
    (hvalid : checkHandshakeRequestValid (headed m) = true)
    (hresponse : Bare .construct (s.successResponse date (headed m)))
    (hpieces : pieces.flatten = HttpProtocol.wire m) :
    ∃ s₁, await date s [] pieces =
      some ([.handshake (HttpProtocol.wire (s.successResponse date (headed m)))],
        .code .connectionEstablished, s₁, []) ∧ s₁.status = .connected := by
  obtain ⟨http, hawait, hstate⟩ := hm.await_ready hzero hpieces
  change HttpProtocol.await .construct [] pieces = _ at hawait
  have hspec := (answersRequest date hs).await .construct [] pieces
  rw [hawait, ← hhttp, answerRequest_ready hstate htype hvalid hcb hresponse] at hspec
  exact ⟨_, hspec, rfl⟩

/-- A server that is connected by a message has been told that the message has no body. -/
theorem server_zeroLength (hs : s.status = .waitingHandshakeRequest) (hhttp : s.http = .construct)
    (hm : Bare .construct m) (hpieces : pieces.flatten = HttpProtocol.wire m) {sent : List Output}
    {rest : Bytes}
    (h : await date s [] pieces = some (sent, .code .connectionEstablished, q, rest)) :
    ZeroLength (HttpMessage.reread m.headers) := by
  by_contra hzero
  have h' : await date { s with http := .construct } [] pieces =
      some (sent, .code .connectionEstablished, q, rest) := by
    rw [← hhttp]
    exact h
  refine hm.await_not_ready hzero hpieces
    (established_ready (answersRequest date hs) (fun http c hc => ?_) h')
  cases hc
  exact finish_error _

/-! ## The client -/

theorem answerResponse_ready (hstate : http.state = .finished m) (htype : m.messageType = .response)
    {key : Bytes} (hkey : s.handshakeHeaders.find (bytes "Sec-WebSocket-Key") = some key)
    (hvalid : checkHandshakeResponseValid m key = true) :
    answerResponse s .messageReady http = some (.returned (.code .connectionEstablished)
      { s with http := http.reset, status := .connected, retCode := .connectionEstablished }) := by
  have hretrieve : http.retrieveResponse = (some m, http.reset) := retrieve_finished hstate htype
  unfold answerResponse
  dsimp only
  rw [hretrieve]
  dsimp only
  rw [hkey]
  simp only [Option.isNone_some, Bool.false_eq_true, if_false]
  rw [hkey, Option.getD_some, hvalid, if_neg (by decide)]

theorem client_ready (hs : s.status = .waitingHandshakeResponse) (hhttp : s.http = .construct)
    (hm : Bare .construct m) (hzero : ZeroLength (HttpMessage.reread m.headers))
    (htype : (headed m).messageType = .response) {key : Bytes}
    (hkey : s.handshakeHeaders.find (bytes "Sec-WebSocket-Key") = some key)
    (hvalid : checkHandshakeResponseValid (headed m) key = true)
    (hpieces : pieces.flatten = HttpProtocol.wire m) :
    ∃ s₁, await date s [] pieces = some ([], .code .connectionEstablished, s₁, []) ∧
      s₁.status = .connected := by
  obtain ⟨http, hawait, hstate⟩ := hm.await_ready hzero hpieces
  change HttpProtocol.await .construct [] pieces = _ at hawait
  have hspec := (answersResponse date hs).await .construct [] pieces
  rw [hawait, ← hhttp, answerResponse_ready hstate htype hkey hvalid] at hspec
  exact ⟨_, hspec, rfl⟩

theorem client_zeroLength (hs : s.status = .waitingHandshakeResponse) (hhttp : s.http = .construct)
    (hm : Bare .construct m) (hpieces : pieces.flatten = HttpProtocol.wire m) {sent : List Output}
    {rest : Bytes}
    (h : await date s [] pieces = some (sent, .code .connectionEstablished, q, rest)) :
    ZeroLength (HttpMessage.reread m.headers) := by
  by_contra hzero
  have h' : await date { s with http := .construct } [] pieces =
      some (sent, .code .connectionEstablished, q, rest) := by
    rw [← hhttp]
    exact h
  refine hm.await_not_ready hzero hpieces
    (established_ready (answersResponse date hs) (fun http c hc => ?_) h')
  cases hc
  rfl

/-! ## Both -/

theorem zeroLength_composed {own : List (Bytes × Bytes)} {extra headers : HeaderMap}
    (h : Composed own extra headers) :
    ZeroLength (HttpMessage.reread headers) ↔ ZeroLength (HttpMessage.reread extra) := by
  unfold ZeroLength
  rw [h.find_length]

/-- A message without `Content-Length` is never complete to the HTTP parser, also if it has
no body. So they shake hands exactly if on each side one of the extra headers says that the
body has length zero: the last of those that are read as `Content-Length`. -/
theorem shakeHands_iff (hp : Fresh p) (hq : Fresh q) (hip : Plain ip)
    (hblank : (32 : UInt8) ∉ requestUri) (huri : Plain requestUri) (hdate : Plain date)
    (hclient : Extra requestNames p.handshakeHeaders)
    (hserver : Extra responseNames q.handshakeHeaders)
    (hrequest : Within .construct (p.clientRequest ip port random requestUri))
    (hresponse : Within .construct
      (q.successResponse date (headed (p.clientRequest ip port random requestUri)))) :
    ShakeHands date p q ip port random requestUri ↔
      ZeroLength (HttpMessage.reread p.handshakeHeaders) ∧
        ZeroLength (HttpMessage.reread q.handshakeHeaders) := by
  have hrequest' := bare_request hip ⟨hblank, huri⟩ hclient hrequest
  have hresponse' := bare_response hdate hserver hresponse
  have hcomposed := @composed_request p ip port random requestUri hclient
  have hcomposed' := composed_response hserver hdate
    (headed (p.clientRequest ip port random requestUri))
  obtain ⟨hvalid, hkey⟩ := @request_valid p ip port random requestUri hclient
  have hvalid' := @response_valid q date (headed (p.clientRequest ip port random requestUri))
    hdate hserver
  rw [hkey] at hvalid'
  let s : WebSocketProtocol := { q with status := .waitingHandshakeRequest, isClient := false }
  have hstart : q.startAsServer.2 = s := by
    rw [startAsServer, if_neg (by simp [hq.status])]
  let c : WebSocketProtocol :=
    { p with status := .waitingHandshakeResponse, random := fun i => random (i + 16),
             isClient := true, handshakeHeaders := p.startedHeaders ip port random }
  have hsent : p.startAsClient ip port random requestUri = some (.output
      (.handshake (HttpProtocol.wire (p.clientRequest ip port random requestUri))) .started c) :=
    (startAsClient_eq hp hclient).trans (sendHandshake_eq hp.outputCb hrequest')
  rw [← zeroLength_composed hcomposed, ← zeroLength_composed hcomposed']
  have hone : ∀ x : Bytes, [x].flatten = x := fun x => List.append_nil x
  constructor
  · rintro ⟨request, p₁, hcall, h⟩
    rw [hsent] at hcall
    cases hcall
    obtain ⟨response, q₁, hawait, -, h⟩ :=
      h [HttpProtocol.wire (p.clientRequest ip port random requestUri)] (hone _)
    rw [hstart] at hawait
    have hzero := server_zeroLength (s := s) rfl hq.http hrequest' (hone _) hawait
    refine ⟨hzero, ?_⟩
    obtain ⟨q₂, hready, -⟩ := server_ready rfl hq.http hq.outputCb hrequest' hzero rfl hvalid
      (s := s) hresponse'
      (hone _)
    rw [hready] at hawait
    cases hawait
    obtain ⟨p₂, hawait', -⟩ := h [_] (hone _)
    exact client_zeroLength (s := c) rfl hp.http hresponse' (hone _) hawait'
  · rintro ⟨hzero, hzero'⟩
    refine ⟨_, _, hsent, fun pieces hpieces => ?_⟩
    rw [hstart]
    obtain ⟨q₁, hready, hconnected⟩ := server_ready rfl hq.http hq.outputCb hrequest' hzero rfl
      hvalid (s := s) hresponse'
      hpieces
    refine ⟨_, q₁, hready, hconnected, fun pieces' hpieces' => ?_⟩
    refine client_ready (s := c) rfl hp.http hresponse' hzero' ?_ ?_ hvalid' hpieces'
    · unfold HttpMessage.messageType
      rw [show (headed _).startLine = _ from (startLine_successResponse date _).1]
    · show (p.startedHeaders ip port random).find _ = _
      rw [startedHeaders, SortedMap.find_insert, if_neg (by decide), SortedMap.find_insert,
        if_pos (by decide)]

/-- A client and a server that say that there is no body. -/
def sampleEnd : WebSocketProtocol :=
  setHandshakeHeader (construct true) (bytes "Content-Length") (bytes "0")

theorem shakeHands_sample : ShakeHands [] sampleEnd sampleEnd (bytes "127.0.0.1") 8080
    (fun i => UInt8.ofNat i) (bytes "/") := by
  have hfresh : Fresh sampleEnd := ⟨rfl, rfl, rfl⟩
  have hentries : sampleEnd.handshakeHeaders.entries = [(bytes "Content-Length", bytes "0")] := rfl
  have hextra : ∀ names : List Bytes,
      (∀ name ∈ names, toLower (HttpMessage.fieldName (bytes "Content-Length")) ≠ toLower name) →
      Extra names sampleEnd.handshakeHeaders := by
    intro names hnames
    refine ⟨fun h hmem => ?_, fun h hmem => ?_⟩
    · rw [hentries, List.mem_singleton] at hmem
      cases hmem
      exact ⟨⟨by decide, by decide, by decide⟩, by decide, by decide, by decide⟩
    · rw [hentries, List.mem_singleton] at hmem
      cases hmem
      exact hnames
  have hzero : ZeroLength (HttpMessage.reread sampleEnd.handshakeHeaders) :=
    ⟨bytes "0", by decide, by decide⟩
  exact (shakeHands_iff hfresh hfresh ⟨by decide, by decide, by decide⟩ (by decide)
    ⟨by decide, by decide, by decide⟩ ⟨by decide, by decide, by decide⟩
    (hextra _ (by decide)) (hextra _ (by decide))
    ⟨by decide +kernel, by decide +kernel, by decide +kernel⟩
    ⟨by decide +kernel, by decide +kernel, by decide +kernel⟩).mpr ⟨hzero, hzero⟩

/-- Without extra headers the server refuses the request. -/
theorem not_shakeHands : ¬ ∀ (date : Bytes) (p q : WebSocketProtocol) (ip : Bytes) (port : Nat)
    (random : Nat → UInt8) (requestUri : Bytes), Fresh p → Fresh q → Plain ip →
    (32 : UInt8) ∉ requestUri → Plain requestUri → Plain date →
    Extra requestNames p.handshakeHeaders → Extra responseNames q.handshakeHeaders →
    Within .construct (p.clientRequest ip port random requestUri) →
    Within .construct (q.successResponse date
      (headed (p.clientRequest ip port random requestUri))) →
    ShakeHands date p q ip port random requestUri := by
  intro h
  have hfresh : Fresh (construct true) := ⟨rfl, rfl, rfl⟩
  have hextra : ∀ names, Extra names (construct true).handshakeHeaders := fun _ =>
    ⟨fun _ hmem => absurd hmem List.not_mem_nil, fun _ hmem => absurd hmem List.not_mem_nil⟩
  obtain ⟨request, p₁, hstart, hserver⟩ := h [] (construct true) (construct true)
    (bytes "127.0.0.1") 8080 (fun i => UInt8.ofNat i) (bytes "/") hfresh hfresh
    ⟨by decide, by decide, by decide⟩ (by decide) ⟨by decide, by decide, by decide⟩
    ⟨by decide, by decide, by decide⟩ (hextra _) (hextra _)
    ⟨by decide +kernel, by decide +kernel, by decide +kernel⟩
    ⟨by decide +kernel, by decide +kernel, by decide +kernel⟩
  obtain ⟨response, q₁, hawait, -⟩ := hserver [request] (List.append_nil _)
  have herror : (((construct true).startAsClient (bytes "127.0.0.1") 8080
      (fun i => UInt8.ofNat i) (bytes "/")).any fun c => c.finish.1.all fun sent =>
        (await [] (construct true).startAsServer.2 [] [sent.text]).any fun r =>
          r.2.1 = .code .error) = true := by
    decide +kernel
  rw [hstart] at herror
  simp [Call.finish, Output.text, hawait] at herror

end WebSocketProtocol

end Brickred
