import Brickred.Lib.SortedMap
import Brickred.Text.StringUtil

/-!
# HTTP messages (`http_message.cc`, `http_request.cc`, `http_response.cc`)
-/

namespace Brickred

open StringUtil (caseInsensitiveLess caseInsensitiveEqual toLower)

/-- `HttpMessage::HeaderMap` -/
abbrev HeaderMap := SortedMap Bytes Bytes fun lhs rhs => caseInsensitiveLess lhs rhs = true

inductive Version where
  | unknown
  | http10
  | http11
deriving DecidableEq, Repr

inductive Method where
  | unknown
  | get
  | post
deriving DecidableEq, Repr

inductive MessageType where
  | request
  | response
deriving DecidableEq, Repr

/-- What an `HttpRequest` and an `HttpResponse` have besides a version, headers and
a body. -/
inductive StartLine where
  | request (method : Method) (requestUri : Bytes)
  | response (statusCode : Int) (reasonPhrase : Bytes)
deriving DecidableEq, Repr

structure HttpMessage where
  startLine : StartLine
  version : Version
  headers : HeaderMap
  body : Bytes

namespace HttpMessage

/-- `HttpMessage::VersionStrToEnum` -/
def versionStrToEnum (s : Bytes) : Version :=
  if s = bytes "HTTP/1.1" then .http11 else if s = bytes "HTTP/1.0" then .http10 else .unknown

/-- `HttpMessage::VersionEnumToStr` -/
def versionEnumToStr : Version → Bytes
  | .http11 => bytes "HTTP/1.1"
  | .http10 => bytes "HTTP/1.0"
  | .unknown => bytes "UNKNOWN"

/-- `HttpRequest::MethodStrToEnum` -/
def methodStrToEnum (s : Bytes) : Method :=
  if s = bytes "GET" then .get else if s = bytes "POST" then .post else .unknown

/-- `HttpRequest::MethodEnumToStr` -/
def methodEnumToStr : Method → Bytes
  | .get => bytes "GET"
  | .post => bytes "POST"
  | .unknown => bytes "UNKNOWN"

def messageType (m : HttpMessage) : MessageType :=
  match m.startLine with
  | .request _ _ => .request
  | .response _ _ => .response

variable (m : HttpMessage) (key value : Bytes)

def hasHeader : Bool := (m.headers.find key).isSome

/-- `HttpMessage::getHeader` -/
def getHeader : Bytes := (m.headers.find key).getD []

/-- `HttpMessage::headerEqual` -/
def headerEqual : Bool := caseInsensitiveEqual (m.getHeader key) value

/-- `HttpMessage::headerContain` -/
def headerContain : Bool := ((toLower (m.getHeader key)).dropInfix? (toLower value)).isSome

def setHeader : HttpMessage := { m with headers := m.headers.insert key value }

def removeHeader : HttpMessage := { m with headers := m.headers.erase key }

def setBody (body : Bytes) : HttpMessage := { m with body }

/-- `setHeader` for the entries of a map, in its order. -/
def setHeaders (entries : List (Bytes × Bytes)) : HttpMessage :=
  { m with headers := m.headers.insertAll entries }

end HttpMessage

end Brickred
