import Brickred.Buffer.DynamicBuffer
import Brickred.Protocol.HttpMessage

/-!
# `HttpProtocol` (`http_protocol.cc`)

The input buffer is its readable bytes. Each handler returns with the state and
the bytes it leaves.
-/

namespace Brickred

open StringUtil (find split trim)

/-- `status_` and what `message_` points to: it is null until a start line is read.
After an error the message stays allocated, but nothing reads it before `reset`. -/
inductive HttpState where
  | readingStartLine
  | readingHeader (message : HttpMessage)
  | readingBody (message : HttpMessage)
  | readingTrailerHeader (message : HttpMessage)
  | finished (message : HttpMessage)
  | pendingError

inductive HttpRetCode where
  | error
  | waitingMoreData
  | messageReady
deriving DecidableEq, Repr

/-- The `int` a status handler returns: 0, -1 or 1. -/
inductive Handled where
  | more
  | failed
  | done
deriving DecidableEq, Repr

/-- `chunkBuffer` is what `chunk_buffer_` points to. The setters keep the limits
from being too small. -/
structure HttpProtocol where
  state : HttpState
  chunkBuffer : Option Bytes
  startLineMaxSize : Nat
  headerMaxSize : Nat
  bodyMaxSize : Nat
  startLineMaxSize_ge : 2 ≤ startLineMaxSize
  headerMaxSize_ge : 4 ≤ headerMaxSize
  bodyMaxSize_pos : 0 < bodyMaxSize

namespace HttpProtocol

/-- `HttpProtocol::HttpProtocol` -/
def construct : HttpProtocol where
  state := .readingStartLine
  chunkBuffer := none
  startLineMaxSize := 8 * 1024
  headerMaxSize := 32 * 1024
  bodyMaxSize := 1024 * 1024
  startLineMaxSize_ge := by decide
  headerMaxSize_ge := by decide
  bodyMaxSize_pos := by decide

variable (p : HttpProtocol)

/-- `HttpProtocol::Impl::reset` -/
def reset : HttpProtocol := { p with state := .readingStartLine, chunkBuffer := none }

def setStartLineMaxSize (size : Nat) : HttpProtocol :=
  if h : size < 2 then p
  else { p with startLineMaxSize := size, startLineMaxSize_ge := Nat.not_lt.mp h }

def setHeaderMaxSize (size : Nat) : HttpProtocol :=
  if h : size < 4 then p
  else { p with headerMaxSize := size, headerMaxSize_ge := Nat.not_lt.mp h }

def setBodyMaxSize (size : Nat) : HttpProtocol :=
  if h : size = 0 then p
  else { p with bodyMaxSize := size, bodyMaxSize_pos := Nat.pos_of_ne_zero h }

/-! ## Start line -/

/-- The message that the three parts of a start line begin. -/
def parseStartLine : List Bytes → Option HttpMessage
  | [part₀, part₁, part₂] =>
    if part₀.length ≥ 4 ∧ part₀.take 4 = bytes "HTTP" then
      let version := HttpMessage.versionStrToEnum part₀
      let statusCode := atoi part₁
      if version = .unknown then none
      else if statusCode ≤ 0 then none
      else some ⟨.response statusCode part₂, version, .empty, []⟩
    else
      let method := HttpMessage.methodStrToEnum part₀
      let version := HttpMessage.versionStrToEnum part₂
      if method = .unknown then none
      else if version = .unknown then none
      else some ⟨.request method part₁, version, .empty, []⟩
  | _ => none

/-- `HttpProtocol::Impl::readStartLine` -/
def readStartLine (buffer : Bytes) : Handled × HttpProtocol × Bytes :=
  match find buffer crlf with
  | none =>
    if buffer.length > p.startLineMaxSize then (.failed, p, buffer) else (.more, p, buffer)
  | some lineLength =>
    if lineLength > p.startLineMaxSize - 2 then
      (.failed, p, buffer)
    else
      match parseStartLine (split (buffer.take lineLength) (bytes " ") 3) with
      | none => (.failed, p, buffer)
      | some message =>
        (.done, { p with state := .readingHeader message }, buffer.drop (lineLength + 2))

/-! ## Headers -/

/-- One line of a header block. -/
def setHeaderLine (message : HttpMessage) (line : Bytes) : Option HttpMessage :=
  (find line (bytes ":")).map fun colon =>
    message.setHeader (trim (line.take colon)) (trim (cstr (line.drop (colon + 1))))

/-- `HttpProtocol::Impl::readHeader`. A trailer ends the message, a header block is
followed by the body. -/
def readHeader (trailer : Bool) (message : HttpMessage) (buffer : Bytes) :
    Handled × HttpProtocol × Bytes :=
  if buffer.length < 2 then
    (.more, p, buffer)
  else if buffer.take 2 = crlf then
    (.done, { p with state := .finished message }, buffer.drop 2)
  else
    match find buffer (crlf ++ crlf) with
    | none =>
      if buffer.length > p.headerMaxSize then (.failed, p, buffer) else (.more, p, buffer)
    | some headerLength =>
      if headerLength > p.headerMaxSize - 4 then
        (.failed, p, buffer)
      else
        match (split (buffer.take headerLength) crlf (-1)).foldlM setHeaderLine message with
        | none => (.failed, p, buffer)
        | some message =>
          (.done,
            { p with state := if trailer then .finished message else .readingBody message },
            buffer.drop (headerLength + 4))

/-! ## Body -/

/-- What one round of the loop over chunks finds. -/
inductive Chunk where
  | more
  | failed
  | data (chunk rest : Bytes)
  | last (rest : Bytes)

/-- One round of the loop over chunks. -/
def readChunk (bodyMaxSize : Nat) (buffer : Bytes) : Chunk :=
  match find buffer crlf with
  | none => .more
  | some headLength =>
    match sscanfHex (buffer.take headLength) with
    | none => .failed
    | some chunkSize =>
      let totalChunkSize :=
        if chunkSize = 0 then headLength + 2 else headLength + 2 + chunkSize + 2
      if chunkSize > bodyMaxSize then .failed
      else if buffer.length < totalChunkSize then .more
      else if chunkSize = 0 then .last (buffer.drop totalChunkSize)
      else if (buffer.drop (headLength + 2 + chunkSize)).take 2 ≠ crlf then .failed
      else .data ((buffer.drop (headLength + 2)).take chunkSize) (buffer.drop totalChunkSize)

/-- The message once its last chunk is read. -/
def chunkedMessage (message : HttpMessage) (body : Bytes) : HttpMessage :=
  ((message.setBody body).setHeader (bytes "Content-Length")
    (StringUtil.toString body.length)).removeHeader (bytes "Transfer-Encoding")

/-- The bytes in `chunk_buffer_`. -/
def chunks : Bytes := p.chunkBuffer.getD []

/-- `chunk_buffer_`, allocated unless it is. -/
def openChunkBuffer : HttpProtocol := { p with chunkBuffer := some p.chunks }

def appendChunk (chunk : Bytes) : HttpProtocol := { p with chunkBuffer := some (p.chunks ++ chunk) }

/-- The message with its body, once the last chunk is read. -/
def beginTrailer (message : HttpMessage) : HttpProtocol :=
  { p with state := .readingTrailerHeader (chunkedMessage message p.chunks) }

/-- The loop over chunks. Every round that goes on takes bytes, so one round more
than there are bytes is enough. -/
def readChunks (message : HttpMessage) :
    Nat → HttpProtocol → Bytes → Handled × HttpProtocol × Bytes
  | 0, p, buffer => (.more, p, buffer)
  | fuel + 1, p, buffer =>
    match readChunk p.bodyMaxSize buffer with
    | .more => (.more, p, buffer)
    | .failed => (.failed, p, buffer)
    | .data chunk rest => readChunks message fuel (p.appendChunk chunk) rest
    | .last rest => (.done, p.beginTrailer message, rest)

/-- `HttpProtocol::Impl::readBody` -/
def readBody (message : HttpMessage) (buffer : Bytes) : Handled × HttpProtocol × Bytes :=
  if message.hasHeader (bytes "Content-Length") then
    let contentLength := atoi (message.getHeader (bytes "Content-Length"))
    if contentLength > 0 then
      if contentLength.toNat > p.bodyMaxSize then
        (.failed, p, buffer)
      else if buffer.length < contentLength.toNat then
        (.more, p, buffer)
      else
        (.done,
          { p with state := .finished (message.setBody (buffer.take contentLength.toNat)) },
          buffer.drop contentLength.toNat)
    else if contentLength = 0 then
      (.done, { p with state := .finished message }, buffer)
    else
      (.failed, p, buffer)
  else if message.headerContain (bytes "Transfer-Encoding") (bytes "chunked") then
    let p := p.openChunkBuffer
    if p.chunks.length + buffer.length > p.bodyMaxSize then
      (.failed, p, buffer)
    else
      readChunks message (buffer.length + 1) p buffer
  else
    (.failed, p, buffer)

/-! ## Receiving -/

/-- The handler of a status, `none` where the table has a null pointer. -/
def handle (buffer : Bytes) : Option (Handled × HttpProtocol × Bytes) :=
  match p.state with
  | .readingStartLine => some (p.readStartLine buffer)
  | .readingHeader message => some (p.readHeader false message buffer)
  | .readingBody message => some (p.readBody message buffer)
  | .readingTrailerHeader message => some (p.readHeader true message buffer)
  | .finished _ | .pendingError => none

/-- The loop of `HttpProtocol::Impl::recvMessage`. -/
def recvLoop : Nat → HttpProtocol → Bytes → HttpRetCode × HttpProtocol × Bytes
  | 0, p, buffer => (.error, p, buffer)
  | fuel + 1, p, buffer =>
    match p.handle buffer with
    | none => (.error, p, buffer)
    | some (.more, p, buffer) => (.waitingMoreData, p, buffer)
    | some (.failed, p, buffer) => (.error, { p with state := .pendingError }, buffer)
    | some (.done, p, buffer) =>
      match p.state with
      | .finished _ => (.messageReady, p, buffer)
      | _ => recvLoop fuel p buffer

/-- `HttpProtocol::Impl::recvMessage`. A message passes at most four statuses. -/
def recvMessage (buffer : Bytes) : HttpRetCode × HttpProtocol × Bytes := recvLoop 4 p buffer

/-- `retrieveRequest` and `retrieveResponse`: `none` is the result `false`. -/
def retrieve (type : MessageType) : Option HttpMessage × HttpProtocol :=
  match p.state with
  | .finished message =>
    if message.messageType = type then (some message, p.reset) else (none, p)
  | _ => (none, p)

def retrieveRequest : Option HttpMessage × HttpProtocol := p.retrieve .request
def retrieveResponse : Option HttpMessage × HttpProtocol := p.retrieve .response

/-! ## Writing -/

/-- `snprintf` of a text to `writeBegin()` and `write` of what it returns: the text is
cut to the room there is less one byte for the NUL, and a text of `2 ^ 31` bytes or
more makes `snprintf` fail, so that nothing is committed. -/
def print (text : Bytes) (buffer : DynamicBuffer) : Option DynamicBuffer :=
  if text.length ≥ 2 ^ 31 ∨ buffer.writableBytes = 0 then
    some buffer
  else do
    let buffer ← buffer.copyIn (text.take (buffer.writableBytes - 1) ++ [0])
    some (buffer.write text.length)

/-- The start line as `writeMessage` formats it. -/
def formatStartLine (message : HttpMessage) : Bytes :=
  match message.startLine with
  | .request method requestUri =>
    HttpMessage.methodEnumToStr method ++ bytes " " ++ cstr requestUri ++ bytes " " ++
      HttpMessage.versionEnumToStr message.version ++ crlf
  | .response statusCode reasonPhrase =>
    HttpMessage.versionEnumToStr message.version ++ bytes " " ++
      StringUtil.toStringInt statusCode ++ bytes " " ++ cstr reasonPhrase ++ crlf

/-- The size that `writeMessage` reserves for the start line. -/
def startLineReserve (message : HttpMessage) : Nat :=
  match message.startLine with
  | .request _ requestUri => 64 + requestUri.length
  | .response _ reasonPhrase => 64 + reasonPhrase.length

/-- A header as `writeMessage` formats it. -/
def formatHeader (header : Bytes × Bytes) : Bytes :=
  cstr header.1 ++ bytes ": " ++ cstr header.2 ++ crlf

/-- `HttpProtocol::writeMessage` -/
def writeMessage (message : HttpMessage) (buffer : DynamicBuffer) : Option DynamicBuffer := do
  -- start line
  let buffer ← buffer.reserveWritableBytes (startLineReserve message)
  let buffer ← print (formatStartLine message) buffer
  -- header
  let buffer ← message.headers.entries.foldlM (fun buffer header => do
    let buffer ← buffer.reserveWritableBytes (32 + header.1.length + header.2.length)
    print (formatHeader header) buffer) buffer
  let buffer ← buffer.reserveWritableBytes 2
  let buffer ← print crlf buffer
  -- body
  buffer.fill message.body.length message.body

/-- The bytes `HttpProtocol::Impl::sendMessage` gives to the output callback. -/
def sendMessage (message : HttpMessage) : Option Bytes := do
  let buffer ← DynamicBuffer.construct 1024 1024
  let buffer ← writeMessage message buffer
  some buffer.readable

end HttpProtocol

end Brickred
