import Galay.Http.RequestHeader
import Galay.Http.HeaderPairs

/-!
# The text of a request header (`HttpRequestHeader::toString`, `convertToUri`)
-/

namespace Galay.Http

def httpMethodToString : HttpMethod → Bytes
  | .GET => ascii "GET"
  | .POST => ascii "POST"
  | .HEAD => ascii "HEAD"
  | .PUT => ascii "PUT"
  | .DELETE => ascii "DELETE"
  | .TRACE => ascii "TRACE"
  | .OPTIONS => ascii "OPTIONS"
  | .CONNECT => ascii "CONNECT"
  | .PATCH => ascii "PATCH"
  | .PRI => ascii "PRI"
  | .UNKNOWN => ascii "UNKNOWN"

def httpVersionToString : HttpVersion → Bytes
  | .HttpVersion_1_0 => ascii "HTTP/1.0"
  | .HttpVersion_1_1 => ascii "HTTP/1.1"
  | .HttpVersion_2_0 => ascii "HTTP/2.0"
  | .HttpVersion_3_0 => ascii "HTTP/3.0"
  | .HttpVersion_Unknown => ascii "Unknown"

/-- A digit of the conversion `%02X`. -/
def upperHexDigit (digit : Nat) : UInt8 :=
  if digit < 10 then UInt8.ofNat (0x30 + digit) else UInt8.ofNat (0x41 + (digit - 10))

def convertToUriChar (c : UInt8) : Bytes :=
  if c = 0x20 then ascii "%20"
  else if c = 0x2b then ascii "%2B"
  else if c = 0x0d then ascii "%0D"
  else if c = 0x0a then ascii "%0A"
  else if c = 0x27 then ascii "%27"
  else if c = 0x2c then ascii "%2C"
  else if c = 0x3b then ascii "%3B"
  else if 0x80 ≤ c then [0x25, upperHexDigit (c.toNat / 16), upperHexDigit (c.toNat % 16)]
  else [c]

def convertToUri (url : Bytes) : Bytes := url.flatMap convertToUriChar

/-- The loop over the arguments, which writes an `&` behind every pair but the last. -/
def argString : List (Bytes × Bytes) → Bytes
  | [] => []
  | [(key, value)] => key ++ 0x3d :: value
  | (key, value) :: pair :: pairs => key ++ 0x3d :: value ++ 0x26 :: argString (pair :: pairs)

/-- The target before it is escaped. -/
def uriString (uri : Bytes) (argList : StringMap) : Bytes :=
  if argList.entries = [] then uri else uri ++ 0x3f :: argString argList.pairs

namespace HttpRequestHeader

def toString (header : HttpRequestHeader) : Bytes :=
  header.headerPairs.appendTo
    (httpMethodToString header.method ++ [SP] ++
      convertToUri (uriString header.uri header.argList) ++ [SP] ++
      httpVersionToString header.version ++ [CR, LF]) ++ [CR, LF]

end HttpRequestHeader

end Galay.Http
