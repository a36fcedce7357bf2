import Galay.Http2.Hpack.Encoder

/-!
# Requests, responses and static responses (`kernel/http2_stream.h`, `server/h2_static_file.h`)

Texts are byte strings. A chunked body is the list of its chunks; empty pieces are not kept.
-/

namespace Galay.Http2

/-! ## Numbers in texts -/

/-- `std::from_chars` on unsigned digits: the value and what follows, if it has a digit and fits. -/
def fromChars (limit : Nat) (text : Bytes) : Option (Nat × Bytes) :=
  let digits := text.takeWhile fun b => 48 ≤ b && b ≤ 57
  let value := digits.foldl (fun n b => 10 * n + (b.toNat - 48)) 0
  if digits = [] ∨ value > limit then none else some (value, text.drop digits.length)

/-- `std::from_chars` with nothing left behind. -/
def fromCharsAll (text : Bytes) : Option Nat :=
  match fromChars (2 ^ 64 - 1) text with
  | some (value, []) => some value
  | _ => none

/-- `std::from_chars` into an `int` that was `0`. -/
def fromCharsInt (text : Bytes) : Int :=
  match text with
  | 45 :: text =>
    match fromChars (2 ^ 31) text with
    | some (value, _) => -value
    | none => 0
  | _ =>
    match fromChars (2 ^ 31 - 1) text with
    | some (value, _) => value
    | none => 0

/-! ## Requests -/

/-- The request headers that have a slot of their own. -/
structure Http2RequestCommonHeaders where
  contentLength : Option Bytes := none
  contentType : Option Bytes := none
  acceptEncoding : Option Bytes := none
  userAgent : Option Bytes := none
  deriving DecidableEq, Repr

structure Http2Request where
  method : Bytes := []
  scheme : Bytes := []
  authority : Bytes := []
  path : Bytes := []
  headers : List Http2HeaderField := []
  body : List Bytes := []
  commonHeaders : Http2RequestCommonHeaders := {}
  deriving DecidableEq, Repr

namespace Http2Request

variable (request : Http2Request)

/-- `Http2ChunkedBody::append`. -/
def appendBody (data : Bytes) : Http2Request :=
  if data = [] then request else { request with body := request.body ++ [data] }

def lowerAscii (b : UInt8) : UInt8 := if 65 ≤ b ∧ b ≤ 90 then b + 32 else b

def equalsLowerAscii (lhs rhs : Bytes) : Bool := lhs.map lowerAscii = rhs

def getCommonHeaderPtr (name : Bytes) : Option Bytes :=
  if equalsLowerAscii name (ascii "content-length") then request.commonHeaders.contentLength
  else if equalsLowerAscii name (ascii "content-type") then request.commonHeaders.contentType
  else if equalsLowerAscii name (ascii "accept-encoding") then request.commonHeaders.acceptEncoding
  else if equalsLowerAscii name (ascii "user-agent") then request.commonHeaders.userAgent
  else none

/-- The value of a header, empty when it is missing. -/
def getHeader (name : Bytes) : Bytes :=
  match request.getCommonHeaderPtr name with
  | some value => value
  | none => ((request.headers.find? (·.name = name)).map (·.value)).getD []

/-- One field of `consumeDecodedHeadersAsRequest`. -/
def consume (field : Http2HeaderField) : Http2Request :=
  let common := request.commonHeaders
  if field.name = ascii ":method" then { request with method := field.value }
  else if field.name = ascii ":scheme" then { request with scheme := field.value }
  else if field.name = ascii ":authority" then { request with authority := field.value }
  else if field.name = ascii ":path" then { request with path := field.value }
  else if field.name = ascii "content-length" then
    { request with commonHeaders := { common with contentLength := some field.value } }
  else if field.name = ascii "content-type" then
    { request with commonHeaders := { common with contentType := some field.value } }
  else if field.name = ascii "accept-encoding" then
    { request with commonHeaders := { common with acceptEncoding := some field.value } }
  else if field.name = ascii "user-agent" then
    { request with commonHeaders := { common with userAgent := some field.value } }
  else { request with headers := request.headers ++ [field] }

end Http2Request

/-! ## Responses -/

structure Http2Response where
  status : Int := 200
  headers : List Http2HeaderField := []
  body : Bytes := []
  deriving DecidableEq, Repr

/-- One field of `consumeDecodedHeadersAsResponse`. -/
def Http2Response.consume (response : Http2Response) (field : Http2HeaderField) : Http2Response :=
  if field.name = ascii ":status" then { response with status := fromCharsInt field.value }
  else { response with headers := response.headers ++ [field] }

/-! ## Static responses -/

structure H2StaticResponse where
  status : Int := 200
  contentType : Bytes := ascii "application/octet-stream"
  body : Bytes := []
  allowHead : Bool := true
  deriving DecidableEq, Repr

structure H2StaticRoute where
  path : Bytes
  response : H2StaticResponse := {}
  encodedHeaders : Option Bytes := none
  sharedBody : Option Bytes := none
  deriving DecidableEq, Repr

def encodeH2StaticResponseHeaders (response : H2StaticResponse) : Bytes :=
  HpackEncoder.encodeStateless {} [⟨ascii ":status", ascii (toString response.status)⟩,
    ⟨ascii "content-type", response.contentType⟩,
    ⟨ascii "content-length", ascii (toString response.body.length)⟩]

/-! ## Static files -/

def encodeH2StaticFileHeaders (status : Int) (headers : List Http2HeaderField) : Bytes :=
  HpackEncoder.encodeStateless {} (⟨ascii ":status", ascii (toString status)⟩ :: headers)

/-- The first `content-length` that is a number, else `0`. -/
def staticFileContentLength (headers : List Http2HeaderField) : Nat :=
  (headers.findSome? fun header =>
    if header.name = ascii "content-length" then fromCharsAll header.value else none).getD 0

structure H2StaticFileRequest where
  path : Bytes
  ifNoneMatch : Bytes
  range : Bytes
  deriving DecidableEq, Repr

/-- What the file cache answers. A cached body is what an earlier read from the start of the file
stored, or a part of it, so it is no longer than the length that is announced. -/
structure H2StaticFileLookup where
  filePath : Bytes := []
  headers : List Http2HeaderField := [⟨ascii "content-length", ascii "0"⟩]
  encodedHeaders : Option Bytes := none
  body : Option Bytes := none
  rangeStart : Nat := 0
  status : Int := 404
  bodyCacheable : Bool := false
  body_le : ∀ b ∈ body, b.length ≤ staticFileContentLength headers := by simp

structure H2StaticFileFastLookup where
  filePath : Bytes := []
  encodedHeaders : Option Bytes := none
  body : Option Bytes := none
  contentLength : Nat := 0
  bodyCacheable : Bool := false
  body_le : ∀ b ∈ body, b.length ≤ contentLength := by simp

structure H2StaticFileMount where
  mountPrefix : Bytes
  hasCache : Bool := true
  deriving DecidableEq, Repr

namespace H2StaticFileMount

def pathStartsWithMount (path mountPrefix : Bytes) : Bool :=
  if mountPrefix = ascii "/" then path.head? = some 47
  else
    path = mountPrefix ||
      (path.length > mountPrefix.length && path.take mountPrefix.length = mountPrefix &&
        path.getD mountPrefix.length 0 = 47)

def mountedStaticFilePath (path : Bytes) (mount : H2StaticFileMount) : Bytes :=
  if mount.mountPrefix = ascii "/" then path
  else
    let relative := path.drop mount.mountPrefix.length
    if relative = [] then ascii "/" else relative

end H2StaticFileMount

end Galay.Http2
