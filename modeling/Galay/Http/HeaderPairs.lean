import Galay.Http.Header

/-!
# The calls of `HeaderPair` (`galay-http/protoc/http_header.cc`)

What `Header` leaves out: the calls that the parsers do not use, the walk over the fields and the
text. A `std::map` is walked in the order of its keys.
-/

namespace Galay.Http

def getCommonHeaderName : CommonHeaderIndex → Bytes
  | .Host => ascii "host"
  | .ContentLength => ascii "content-length"
  | .ContentType => ascii "content-type"
  | .UserAgent => ascii "user-agent"
  | .Accept => ascii "accept"
  | .AcceptEncoding => ascii "accept-encoding"
  | .Connection => ascii "connection"
  | .CacheControl => ascii "cache-control"
  | .Cookie => ascii "cookie"
  | .Authorization => ascii "authorization"
  | .IfModifiedSince => ascii "if-modified-since"
  | .IfNoneMatch => ascii "if-none-match"
  | .Referer => ascii "referer"
  | .AcceptLanguage => ascii "accept-language"
  | .Range => ascii "range"
  | .NotCommon => []

/-- The indices of the array of common headers, in order. -/
def CommonHeaderIndex.all : List CommonHeaderIndex :=
  [.Host, .ContentLength, .ContentType, .UserAgent, .Accept, .AcceptEncoding, .Connection,
    .CacheControl, .Cookie, .Authorization, .IfModifiedSince, .IfNoneMatch, .Referer,
    .AcceptLanguage, .Range]

/-- The pairs of a map in the order in which it is walked. -/
def StringMap.pairs (map : StringMap) : List (Bytes × Bytes) :=
  (map.entries.map fun entry => (entry.1, entry.2)).mergeSort fun a b => !decide (b.1 < a.1)

namespace HeaderPair

variable (pairs : HeaderPair)

def hasKey (key : Bytes) : Bool := (pairs.getValuePtr key).isSome

def getValue (key : Bytes) : Bytes := (pairs.getValuePtr key).getD []

def addHeaderPairIfNotExist (key value : Bytes) : HttpErrorCode × HeaderPair :=
  match pairs.mode with
  | .ServerSide =>
    let normalized := if hasUpperAscii key then toLowerAscii key else key
    let idx := matchCommonHeader normalized
    if idx ≠ .NotCommon then
      if pairs.hasCommonHeader idx then (.kHeaderPairExist, pairs)
      else (.kNoError, pairs.setCommonHeader idx value)
    else if (pairs.headerPairs.lookup normalized).isSome then (.kHeaderPairExist, pairs)
    else (.kNoError, { pairs with headerPairs := pairs.headerPairs.insert normalized value })
  | .ClientSide =>
    let normalized := toCanonicalHeaderKey key
    if (pairs.headerPairs.lookup normalized).isSome then (.kHeaderPairExist, pairs)
    else (.kNoError, { pairs with headerPairs := pairs.headerPairs.insert normalized value })

def addNormalizedHeaderPair (key value : Bytes) : HeaderPair :=
  let idx := matchCommonHeader key
  if pairs.mode = .ServerSide ∧ idx ≠ .NotCommon then
    { pairs with commonHeaders := pairs.commonHeaders.insert idx value }
  else { pairs with headerPairs := pairs.headerPairs.insert key value }

def clear : HeaderPair :=
  { pairs with
    commonHeaders := if pairs.mode = .ServerSide then ∅ else pairs.commonHeaders
    headerPairs := ∅ }

/-- The common headers that are present, in order. -/
def commonPairs : List (Bytes × Bytes) :=
  CommonHeaderIndex.all.filterMap fun idx =>
    (pairs.commonHeaders.lookup idx).map fun value => (getCommonHeaderName idx, value)

/-- The pairs with which the callback is called. -/
def forEachHeader : List (Bytes × Bytes) :=
  (if pairs.mode = .ServerSide then pairs.commonPairs else []) ++ pairs.headerPairs.pairs

def headerLine (pair : Bytes × Bytes) : Bytes := pair.1 ++ ascii ": " ++ pair.2 ++ ascii "\r\n"

def appendTo (out : Bytes) : Bytes :=
  pairs.headerPairs.pairs.foldl (fun out pair => out ++ headerLine pair)
    (pairs.commonPairs.foldl (fun out pair => out ++ headerLine pair) out)

def toString : Bytes :=
  if pairs.headerPairs.entries = [] ∧ pairs.commonHeaders.entries = [] then []
  else pairs.appendTo []

end HeaderPair

end Galay.Http
