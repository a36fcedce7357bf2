import Galay.Http.Chunk
import Galay.Http.RequestHeader

/-!
# Requests (`galay-http/protoc/http_request.cc`)

A request keeps its header parser, its chunk parser and the count of body bytes between calls of
`fromIOVec`. What a call reports as consumed is not given to the next call again.
-/

namespace Galay.Http

def isSingleHeaderToken (value expected : Bytes) : Bool :=
  let value := trimAscii value
  !value.contains 0x2c && equalsIgnoreCaseAscii value expected

structure HttpRequest where
  body : Bytes := []
  header : HttpRequestHeader := {}
  contentLength : Nat := 0
  bodyParsed : Nat := 0
  chunkParser : ChunkParser := {}
  headerParsed : Bool := false

namespace HttpRequest

variable (request : HttpRequest)

def transferEncoding : Option Bytes :=
  request.header.headerPairs.getValuePtr (ascii "transfer-encoding")

/-- What a complete header says about the body. -/
inductive Framing
  | fail (err : HttpErrorCode) (request : HttpRequest)
  | noBody (request : HttpRequest)
  | body (isChunked : Bool) (request : HttpRequest)

/-- The header has just been completed. -/
def frame (maxBodySize : Nat) : Framing :=
  let contentLength := request.header.headerPairs.getValuePtr (ascii "content-length")
  match request.transferEncoding with
  | some transferEncoding =>
    -- the source makes this check once more when it has seen the token
    if contentLength.isSome then .fail .kBadRequest request
    else if !isSingleHeaderToken transferEncoding (ascii "chunked") then .fail .kBadRequest request
    else .body true request
  | none =>
    match contentLength with
    | none => .noBody request
    | some text =>
      if text = [] then .noBody request
      else
        match parseSizeTStrict text with
        | none => .fail .kBadRequest request
        | some length =>
          let request := { request with contentLength := length }
          if maxBodySize ≠ 0 ∧ maxBodySize < length then .fail .kRequestEntityTooLarge request
          else if length = 0 then .noBody request
          else .body false request

/-- The coding is taken away from a body that has been decoded. -/
def finishChunked : HttpRequest :=
  let headerPairs := removeHeaderPairLoose request.header.headerPairs (ascii "transfer-encoding")
  let headerPairs :=
    headerPairs.addHeaderPair (ascii "content-length") (ascii (toString request.body.length))
  { request with
    header := { request.header with headerPairs := headerPairs }
    contentLength := request.body.length
    bodyParsed := request.body.length }

/-- The part of a call behind the `headerBytes` that the header parser has read in it. The loops
that skip the header and read the body are those of the chunk reader. -/
def parseBody (iovecs : IoVecs) (maxBodySize headerBytes : Nat) (isChunked : Bool) :
    (HttpErrorCode × Int) × HttpRequest :=
  if isChunked then
    let bodyIovecs := sliceIovecs iovecs headerBytes
    if bodyIovecs = [] then ((.kNoError, headerBytes), request)
    else
      match request.chunkParser.parse bodyIovecs request.body maxBodySize with
      | ⟨parser, body, .error error⟩ =>
        let request := { request with chunkParser := parser, body := body }
        if error.code = .kIncomplete then ((.kNoError, headerBytes), request)
        else ((error.code, -1), request)
      | ⟨parser, body, .ok (done, consumed)⟩ =>
        let request := { request with chunkParser := parser, body := body }
        ((.kNoError, (headerBytes + consumed : Nat)),
          if done then request.finishChunked else request)
  else if request.contentLength = 0 then ((.kNoError, 0), request)
  else
    let read := Chunk.readData (request.contentLength - request.bodyParsed)
      (Chunk.advance headerBytes iovecs)
    ((.kNoError, (headerBytes + read.length : Nat)), { request with
        body := request.body ++ read
        bodyParsed := request.bodyParsed + read.length })

def fromIOVec (iovecs : IoVecs) (maxBodySize : Nat) : (HttpErrorCode × Int) × HttpRequest :=
  if request.headerParsed then
    let isChunked :=
      match request.transferEncoding with
      | some te => headerValueContainsToken te (ascii "chunked")
      | none => false
    request.parseBody iovecs maxBodySize 0 isChunked
  else
    match request.header.fromIOVec iovecs with
    | ((.kIncomplete, consumed), header) => ((.kNoError, consumed), { request with header := header })
    | ((.kNoError, consumed), header) =>
      match frame { request with header := header, headerParsed := true } maxBodySize with
      | .fail err request => ((err, -1), request)
      | .noBody request => ((.kNoError, consumed), request)
      | .body isChunked request => request.parseBody iovecs maxBodySize consumed.toNat isChunked
    | ((err, _), header) => ((err, -1), { request with header := header })

def isComplete : Bool :=
  request.headerParsed && !request.header.isChunked &&
    decide (request.contentLength ≤ request.bodyParsed)

end HttpRequest

end Galay.Http
