import Mathlib.Data.List.AList
import Galay.Http.Base
import Galay.Lib.FromChars

/-!
# Header fields (`galay-http/protoc/http_header.cc`, `http_base.cc`, `parse_utils.h`)

A `std::map` is an association list without duplicate keys. The array of common headers and its
presence bits are one such map: a slot is in it when its bit is set.
-/

namespace Galay.Http

/-! ## Characters -/

def toLowerAsciiChar (ch : UInt8) : UInt8 := if 0x41 ≤ ch ∧ ch ≤ 0x5a then ch + 0x20 else ch

def toUpperAsciiChar (ch : UInt8) : UInt8 := if 0x61 ≤ ch ∧ ch ≤ 0x7a then ch - 0x20 else ch

variable (value : Bytes)

def hasUpperAscii : Bool := value.any fun ch => 0x41 ≤ ch && ch ≤ 0x5a

def toLowerAscii : Bytes := value.map toLowerAsciiChar

def toCanonicalHeaderKeyFrom : (wordStart : Bool) → Bytes → Bytes
  | _, [] => []
  | wordStart, ch :: rest =>
    let ch := if wordStart then toUpperAsciiChar ch else toLowerAsciiChar ch
    ch :: toCanonicalHeaderKeyFrom (ch == 0x2d) rest

def toCanonicalHeaderKey : Bytes := toCanonicalHeaderKeyFrom true value

def equalsIgnoreCaseAscii (lhs rhs : Bytes) : Bool := toLowerAscii lhs == toLowerAscii rhs

/-- `std::isspace` in the C locale. -/
def isSpace (ch : UInt8) : Bool := ch == 0x20 || (0x09 ≤ ch && ch ≤ 0x0d)

/-- The text without white space at its ends. -/
def trimAscii : Bytes :=
  ((value.dropWhile isSpace).reverse.dropWhile isSpace).reverse

/-- The parts of a list separated by commas. -/
def splitComma : List Bytes := value.splitOn 0x2c

variable {value}

/-- One of the parts is the token; empty parts never are. -/
def headerValueContainsToken (value token : Bytes) : Bool :=
  if value = [] ∨ token = [] then false
  else (splitComma value).any fun part =>
    trimAscii part != [] && equalsIgnoreCaseAscii (trimAscii part) token

/-- The same code is written twice in the source. -/
def containsCommaSeparatedHeaderValue (value expected : Bytes) : Bool :=
  headerValueContainsToken value expected

def parseSizeTStrict (input : Bytes) : Option Nat :=
  let text := trimAscii input
  if text = [] then none
  else
    match Lib.fromChars 10 sizeMax text with
    | (.ok value, []) => some value
    | _ => none

/-! ## Methods, versions and status codes -/

inductive HttpMethod
  | GET
  | POST
  | HEAD
  | PUT
  | DELETE
  | TRACE
  | OPTIONS
  | CONNECT
  | PATCH
  | PRI
  | UNKNOWN
  deriving DecidableEq, Repr

def stringToHttpMethod (str : Bytes) : HttpMethod :=
  if str = ascii "GET" then .GET
  else if str = ascii "POST" then .POST
  else if str = ascii "HEAD" then .HEAD
  else if str = ascii "PUT" then .PUT
  else if str = ascii "DELETE" then .DELETE
  else if str = ascii "TRACE" then .TRACE
  else if str = ascii "OPTIONS" then .OPTIONS
  else if str = ascii "CONNECT" then .CONNECT
  else if str = ascii "PATCH" then .PATCH
  else if str = ascii "PRI" then .PRI
  else .UNKNOWN

inductive HttpVersion
  | HttpVersion_1_0
  | HttpVersion_1_1
  | HttpVersion_2_0
  | HttpVersion_3_0
  | HttpVersion_Unknown
  deriving DecidableEq, Repr

def stringToHttpVersion (str : Bytes) : HttpVersion :=
  if str = ascii "HTTP/1.0" then .HttpVersion_1_0
  else if str = ascii "HTTP/1.1" then .HttpVersion_1_1
  else if str = ascii "HTTP/2.0" then .HttpVersion_2_0
  else if str = ascii "HTTP/3.0" then .HttpVersion_3_0
  else .HttpVersion_Unknown

/-- A status code is the `int` it is cast from. -/
def parseHttpStatusCode (text : Bytes) : Option Int :=
  if text = [] then none
  else
    match text with
    | 0x2d :: digits =>
      match Lib.fromChars 10 (2 ^ 31) digits with
      | (.ok value, []) => some (-value)
      | _ => none
    | _ =>
      match Lib.fromChars 10 (2 ^ 31 - 1) text with
      | (.ok value, []) => some value
      | _ => none

/-! ## Header pairs -/

inductive CommonHeaderIndex
  | Host
  | ContentLength
  | ContentType
  | UserAgent
  | Accept
  | AcceptEncoding
  | Connection
  | CacheControl
  | Cookie
  | Authorization
  | IfModifiedSince
  | IfNoneMatch
  | Referer
  | AcceptLanguage
  | Range
  | NotCommon
  deriving DecidableEq, Repr

/-- The source looks at the length and the first character before it compares. -/
def matchCommonHeader (key : Bytes) : CommonHeaderIndex :=
  if key = ascii "host" then .Host
  else if key = ascii "content-length" then .ContentLength
  else if key = ascii "content-type" then .ContentType
  else if key = ascii "connection" then .Connection
  else if key = ascii "cache-control" then .CacheControl
  else if key = ascii "cookie" then .Cookie
  else if key = ascii "user-agent" then .UserAgent
  else if key = ascii "accept" then .Accept
  else if key = ascii "accept-encoding" then .AcceptEncoding
  else if key = ascii "accept-language" then .AcceptLanguage
  else if key = ascii "authorization" then .Authorization
  else if key = ascii "if-modified-since" then .IfModifiedSince
  else if key = ascii "if-none-match" then .IfNoneMatch
  else if key = ascii "referer" then .Referer
  else if key = ascii "range" then .Range
  else .NotCommon

inductive HeaderMode
  | ServerSide
  | ClientSide
  deriving DecidableEq, Repr

abbrev StringMap := AList fun _ : Bytes => Bytes

structure HeaderPair where
  mode : HeaderMode := .ServerSide
  commonHeaders : AList (fun _ : CommonHeaderIndex => Bytes) := ∅
  headerPairs : StringMap := ∅
  deriving DecidableEq

namespace HeaderPair

variable (pairs : HeaderPair)

def hasCommonHeader (idx : CommonHeaderIndex) : Bool := (pairs.commonHeaders.lookup idx).isSome

def setCommonHeader (idx : CommonHeaderIndex) (value : Bytes) : HeaderPair :=
  match pairs.commonHeaders.lookup idx with
  | some present =>
    { pairs with
      commonHeaders := pairs.commonHeaders.insert idx (present ++ ascii ", " ++ value) }
  | none => { pairs with commonHeaders := pairs.commonHeaders.insert idx value }

def setNormalizedUncommonHeaderPair (key value : Bytes) : HeaderPair :=
  { pairs with headerPairs := pairs.headerPairs.insert key value }

def mergeNormalizedUncommonHeaderPair (key value : Bytes) : HeaderPair :=
  match pairs.headerPairs.lookup key with
  | none => { pairs with headerPairs := pairs.headerPairs.insert key value }
  | some present =>
    { pairs with headerPairs := pairs.headerPairs.insert key (present ++ ascii ", " ++ value) }

def addHeaderPair (key value : Bytes) : HeaderPair :=
  match pairs.mode with
  | .ServerSide =>
    let normalized := if hasUpperAscii key then toLowerAscii key else key
    let idx := matchCommonHeader normalized
    if idx ≠ .NotCommon then pairs.setCommonHeader idx value
    else { pairs with headerPairs := pairs.headerPairs.insert normalized value }
  | .ClientSide =>
    { pairs with headerPairs := pairs.headerPairs.insert (toCanonicalHeaderKey key) value }

/-- The key under which the map holds the header. -/
def findHeaderPairIter (key : Bytes) : Option Bytes :=
  if (pairs.headerPairs.lookup key).isSome then some key
  else
    match pairs.mode with
    | .ServerSide =>
      if !hasUpperAscii key then none
      else if (pairs.headerPairs.lookup (toLowerAscii key)).isSome then some (toLowerAscii key)
      else none
    | .ClientSide =>
      let normalized := toCanonicalHeaderKey key
      if normalized = key then none
      else if (pairs.headerPairs.lookup normalized).isSome then some normalized
      else none

def getValuePtr (key : Bytes) : Option Bytes :=
  let normalized := if hasUpperAscii key then toLowerAscii key else key
  let idx := matchCommonHeader normalized
  if pairs.mode = .ServerSide ∧ idx ≠ .NotCommon then pairs.commonHeaders.lookup idx
  else (pairs.findHeaderPairIter key).bind pairs.headerPairs.lookup

def removeHeaderPair (key : Bytes) : HeaderPair :=
  let normalized := if hasUpperAscii key then toLowerAscii key else key
  let idx := matchCommonHeader normalized
  if pairs.mode = .ServerSide ∧ idx ≠ .NotCommon ∧ pairs.hasCommonHeader idx then
    { pairs with commonHeaders := pairs.commonHeaders.erase idx }
  else
    match pairs.findHeaderPairIter key with
    | none => pairs
    | some found => { pairs with headerPairs := pairs.headerPairs.erase found }

end HeaderPair

def normalizeHeaderKeyChar (ch : UInt8) (mode : HeaderMode) : UInt8 :=
  if mode = .ServerSide then toLowerAsciiChar ch else ch

/-- The key, its variants and their removal, each at most once. -/
def removeHeaderPairLoose (headers : HeaderPair) (key : Bytes) : HeaderPair :=
  let headers := headers.removeHeaderPair key
  let lower := key.map toLowerAsciiChar
  let headers := if lower ≠ key then headers.removeHeaderPair lower else headers
  let upper := key.map toUpperAsciiChar
  let headers := if upper ≠ key ∧ upper ≠ lower then headers.removeHeaderPair upper else headers
  let canonical := toCanonicalHeaderKey lower
  if canonical ≠ key ∧ canonical ≠ lower ∧ canonical ≠ upper then
    headers.removeHeaderPair canonical
  else headers

/-- The array without its first `skipBytes` bytes; pieces that are skipped whole are left out. -/
def sliceIovecs : IoVecs → (skipBytes : Nat) → IoVecs
  | [], _ => []
  | iov :: iovecs, skip =>
    if iov.length ≤ skip then sliceIovecs iovecs (skip - iov.length)
    else iov.drop skip :: sliceIovecs iovecs 0

/-! ## Request targets -/

def isHex (c : UInt8) : Option Nat :=
  if 0x30 ≤ c ∧ c ≤ 0x39 then some (c.toNat - 0x30)
  else if 0x41 ≤ c ∧ c ≤ 0x46 then some (c.toNat - 0x41 + 10)
  else if 0x61 ≤ c ∧ c ≤ 0x66 then some (c.toNat - 0x61 + 10)
  else none

/-- The value of the first `cnt` characters. -/
def fromHexToI (text : Bytes) (cnt : Nat) : Option Nat :=
  if text.length < cnt then none
  else (text.take cnt).foldlM (fun val c => (isHex c).map (val * 16 + ·)) 0

def toUtf8 (code : Nat) : Option Bytes :=
  if code < 0x80 then some [UInt8.ofNat (code &&& 0x7f)]
  else if code < 0x800 then
    some [UInt8.ofNat (0xc0 ||| (code >>> 6 &&& 0x1f)), UInt8.ofNat (0x80 ||| (code &&& 0x3f))]
  else if code < 0xd800 then
    some [UInt8.ofNat (0xe0 ||| (code >>> 12 &&& 0xf)),
      UInt8.ofNat (0x80 ||| (code >>> 6 &&& 0x3f)), UInt8.ofNat (0x80 ||| (code &&& 0x3f))]
  else if code < 0xe000 then none
  else if code < 0x10000 then
    some [UInt8.ofNat (0xe0 ||| (code >>> 12 &&& 0xf)),
      UInt8.ofNat (0x80 ||| (code >>> 6 &&& 0x3f)), UInt8.ofNat (0x80 ||| (code &&& 0x3f))]
  else if code < 0x110000 then
    some [UInt8.ofNat (0xf0 ||| (code >>> 18 &&& 0x7)),
      UInt8.ofNat (0x80 ||| (code >>> 12 &&& 0x3f)),
      UInt8.ofNat (0x80 ||| (code >>> 6 &&& 0x3f)), UInt8.ofNat (0x80 ||| (code &&& 0x3f))]
  else none

/-- Percent decoding; `none` where the source sets its error flag. -/
def convertFromUri (convertPlusToSpace : Bool) (url : Bytes) : Option Bytes :=
  match url with
  | [] => some []
  | c :: rest =>
    if c = 0x25 then
      match hrest : rest with
      | [] => none
      | c' :: rest' =>
        if c' = 0x75 then do
          let val ← fromHexToI rest' 4
          let bytes ← toUtf8 val
          let decoded ← convertFromUri convertPlusToSpace (rest'.drop 4)
          return bytes ++ decoded
        else do
          let val ← fromHexToI (c' :: rest') 2
          let decoded ← convertFromUri convertPlusToSpace (rest'.drop 1)
          return UInt8.ofNat val :: decoded
    else do
      let decoded ← convertFromUri convertPlusToSpace rest
      return (if convertPlusToSpace ∧ c = 0x2b then 0x20 else c) :: decoded
termination_by url.length
decreasing_by
  · simp only [hrest, List.length_drop, List.length_cons]
    omega
  · simp only [List.length_drop, List.length_cons]
    omega
  · simp

/-- The loop over the query. A pair is stored at the `&` behind it, or at the last character of its
value. -/
def parseArgsLoop (argList : StringMap) (key value : Bytes) (status : Bool) : Bytes → StringMap
  | [] => argList
  | c :: rest =>
    if !status then
      if c = 0x3d then parseArgsLoop argList key value true rest
      else parseArgsLoop argList (key ++ [c]) value false rest
    else if c = 0x26 then parseArgsLoop (argList.insert key value) [] [] false rest
    else
      let value := value ++ [c]
      let argList := if rest = [] then argList.insert key value else argList
      parseArgsLoop argList key value true rest

end Galay.Http
