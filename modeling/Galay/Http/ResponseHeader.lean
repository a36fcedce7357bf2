import Galay.Http.HeaderParser

/-!
# Response headers (`galay-http/protoc/http_header.cc`, `HttpResponseHeader`)

As for requests, each case of the switch over the states is a definition of its own, in both
parsers. A field that comes twice keeps its last value here, unless it is a common one.
-/

namespace Galay.Http

inductive ResponseParseState
  | Version
  | VersionSP
  | Code
  | CodeSP
  | Status
  | StatusCR
  | StatusLF
  | HeaderKey
  | HeaderColon
  | HeaderSpace
  | HeaderValue
  | HeaderCR
  | HeaderLF
  | HeaderEndCR
  | Done
  deriving DecidableEq, Repr

structure HttpResponseHeader where
  headerPairs : HeaderPair := {}
  parseVersionStr : Bytes := []
  parseCodeStr : Bytes := []
  parseHeaderKey : Bytes := []
  parseHeaderValue : Bytes := []
  code : Int := 200
  version : HttpVersion := .HttpVersion_1_1
  parseState : ResponseParseState := .Version
  currentCommonHeaderIdx : CommonHeaderIndex := .NotCommon

namespace HttpResponseHeader

variable (header : HttpResponseHeader)

/-! ## Parts of both parsers -/

def commitParsedHeaderPair : HttpResponseHeader :=
  let pairs := header.headerPairs
  { header with
    headerPairs :=
      match pairs.mode with
      | .ServerSide =>
        if header.currentCommonHeaderIdx ≠ .NotCommon then
          pairs.setCommonHeader header.currentCommonHeaderIdx header.parseHeaderValue
        else
          pairs.setNormalizedUncommonHeaderPair header.parseHeaderKey header.parseHeaderValue
      | .ClientSide => pairs.addHeaderPair header.parseHeaderKey header.parseHeaderValue
    parseHeaderKey := []
    parseHeaderValue := []
    currentCommonHeaderIdx := .NotCommon }

/-- The end of the version: only HTTP/1.0 and HTTP/1.1 are supported. -/
def finishVersion : HttpErrorCode × HttpResponseHeader :=
  let header := { header with version := stringToHttpVersion header.parseVersionStr }
  if header.version ≠ .HttpVersion_1_0 ∧ header.version ≠ .HttpVersion_1_1 then
    (.kVersionNotSupport, header)
  else (.kNoError, { header with parseState := .VersionSP })

/-- The end of the status code. The block parser has the code of `parseHttpStatusCode` once more. -/
def finishCode (next : ResponseParseState) : HttpErrorCode × HttpResponseHeader :=
  match parseHttpStatusCode header.parseCodeStr with
  | none => (.kHttpCodeInvalid, header)
  | some code => (.kNoError, { header with code := code, parseState := next })

/-- The end of a header key. -/
def finishKey : HttpErrorCode × HttpResponseHeader :=
  if 256 < header.parseHeaderKey.length then (.kBadRequest, header)
  else
    let header :=
      if header.headerPairs.mode = .ServerSide then
        { header with currentCommonHeaderIdx := matchCommonHeader header.parseHeaderKey }
      else header
    (.kNoError, { header with parseState := .HeaderColon })

/-- The end of a header value. -/
def finishValue : HttpResponseHeader := { header.commitParsedHeaderPair with parseState := .HeaderCR }

/-- A character of a header key is added. -/
def pushHeaderKeyChar (c : UInt8) : HttpResponseHeader :=
  if header.headerPairs.mode = .ServerSide then
    { header with parseHeaderKey := header.parseHeaderKey ++ [toLowerAsciiChar c] }
  else
    { header with
      parseHeaderKey := header.parseHeaderKey ++ [normalizeHeaderKeyChar c header.headerPairs.mode] }

/-! ## Character by character -/

variable (c : UInt8)

def charVersion : HttpErrorCode × HttpResponseHeader :=
  if c = SP then header.finishVersion
  else if c = CR ∨ c = LF then (.kBadRequest, header)
  else (.kNoError, { header with parseVersionStr := header.parseVersionStr ++ [c] })

def charVersionSP : HttpErrorCode × HttpResponseHeader :=
  if c = SP then (.kNoError, header)
  else if c = CR ∨ c = LF then (.kBadRequest, header)
  else (.kNoError, { header with parseCodeStr := header.parseCodeStr ++ [c], parseState := .Code })

def charCode : HttpErrorCode × HttpResponseHeader :=
  if c = SP then header.finishCode .CodeSP
  else if c = CR then header.finishCode .StatusCR
  else if c = LF then (.kBadRequest, header)
  else (.kNoError, { header with parseCodeStr := header.parseCodeStr ++ [c] })

def charCodeSP : HttpErrorCode × HttpResponseHeader :=
  if c = SP then (.kNoError, header)
  else if c = CR then (.kNoError, { header with parseState := .StatusCR })
  else if c = LF then (.kBadRequest, header)
  else (.kNoError, { header with parseState := .Status })

/-- The text of the status is read over. -/
def charStatus : HttpErrorCode × HttpResponseHeader :=
  if c = CR then (.kNoError, { header with parseState := .StatusCR })
  else if c = LF then (.kBadRequest, header)
  else (.kNoError, header)

/-- A line feed is the only character that may come. -/
def charLineFeed (next : ResponseParseState) (c : UInt8) : HttpErrorCode × HttpResponseHeader :=
  if c = LF then (.kNoError, { header with parseState := next }) else (.kBadRequest, header)

def charStatusLF : HttpErrorCode × HttpResponseHeader :=
  if c = CR then (.kNoError, { header with parseState := .HeaderEndCR })
  else if c = LF then (.kBadRequest, header)
  else (.kNoError, { header.pushHeaderKeyChar c with parseState := .HeaderKey })

def charHeaderKey : HttpErrorCode × HttpResponseHeader :=
  if c = COLON then header.finishKey
  else if c = CR ∨ c = LF then (.kBadRequest, header)
  else if 256 ≤ header.parseHeaderKey.length then (.kBadRequest, header)
  else (.kNoError, header.pushHeaderKeyChar c)

def charHeaderColon : HttpErrorCode × HttpResponseHeader :=
  if c = SP then (.kNoError, { header with parseState := .HeaderSpace })
  else if c = CR then (.kNoError, header.finishValue)
  else
    (.kNoError, { header with
      parseHeaderValue := header.parseHeaderValue ++ [c], parseState := .HeaderValue })

def charHeaderSpace : HttpErrorCode × HttpResponseHeader :=
  if c = SP then (.kNoError, header)
  else if c = CR then (.kNoError, header.finishValue)
  else
    (.kNoError, { header with
      parseHeaderValue := header.parseHeaderValue ++ [c], parseState := .HeaderValue })

def charHeaderValue : HttpErrorCode × HttpResponseHeader :=
  if c = CR then (.kNoError, header.finishValue)
  else (.kNoError, { header with parseHeaderValue := header.parseHeaderValue ++ [c] })

def charHeaderLF : HttpErrorCode × HttpResponseHeader :=
  if c = CR then (.kNoError, { header with parseState := .HeaderEndCR })
  else (.kNoError, { header.pushHeaderKeyChar c with parseState := .HeaderKey })

def charHeaderEndCR : HttpErrorCode × HttpResponseHeader :=
  if c = LF then (.kIncomplete, { header with parseState := .Done }) else (.kBadRequest, header)

/-- The code `kIncomplete` says that the header is complete. -/
def parseChar : HttpErrorCode × HttpResponseHeader :=
  match header.parseState with
  | .Version => header.charVersion c
  | .VersionSP => header.charVersionSP c
  | .Code => header.charCode c
  | .CodeSP => header.charCodeSP c
  | .Status => header.charStatus c
  | .StatusCR => header.charLineFeed .StatusLF c
  | .StatusLF => header.charStatusLF c
  | .HeaderKey => header.charHeaderKey c
  | .HeaderColon => header.charHeaderColon c
  | .HeaderSpace => header.charHeaderSpace c
  | .HeaderValue => header.charHeaderValue c
  | .HeaderCR => header.charLineFeed .HeaderLF c
  | .HeaderLF => header.charHeaderLF c
  | .HeaderEndCR => header.charHeaderEndCR c
  | .Done => (.kIncomplete, header)

variable {c}

def fromString (str : Bytes) : (HttpErrorCode × Int) × HttpResponseHeader :=
  if header.parseState = .Done then ((.kNoError, 0), header)
  else fromStringLoop parseChar header 0 str

/-! ## Block by block -/

def appendHeaderKeyChunk (chunk : Bytes) : HttpResponseHeader :=
  if header.headerPairs.mode = .ServerSide then
    { header with parseHeaderKey := header.parseHeaderKey ++ chunk.map toLowerAsciiChar }
  else { header with parseHeaderKey := header.parseHeaderKey ++ chunk }

variable (data : Bytes)

def blockVersion : Block HttpResponseHeader :=
  let word := data.takeWhile fun c => c != SP && c != CR && c != LF
  let header := { header with parseVersionStr := header.parseVersionStr ++ word }
  match data.dropWhile fun c => c != SP && c != CR && c != LF with
  | [] => .go header []
  | c :: rest =>
    if c ≠ SP then .fail .kBadRequest header else .ofResult rest header.finishVersion

def blockVersionSP : Block HttpResponseHeader :=
  match data.dropWhile (· == SP) with
  | [] => .go header []
  | c :: rest =>
    if c = CR ∨ c = LF then .fail .kBadRequest header
    else .go { header with parseCodeStr := header.parseCodeStr ++ [c], parseState := .Code } rest

def blockCode : Block HttpResponseHeader :=
  let word := data.takeWhile fun c => c != SP && c != CR && c != LF
  let header := { header with parseCodeStr := header.parseCodeStr ++ word }
  match data.dropWhile fun c => c != SP && c != CR && c != LF with
  | [] => .go header []
  | c :: rest =>
    if c = LF then .fail .kBadRequest header
    else .ofResult rest (header.finishCode (if c = CR then .StatusCR else .CodeSP))

def blockCodeSP : Block HttpResponseHeader :=
  match data.dropWhile (· == SP) with
  | [] => .go header []
  | c :: rest =>
    if c = CR then .go { header with parseState := .StatusCR } rest
    else if c = LF then .fail .kBadRequest header
    else .go { header with parseState := .Status } rest

def blockStatus : Block HttpResponseHeader :=
  match data.dropWhile fun c => c != CR && c != LF with
  | [] => .go header []
  | c :: rest =>
    if c = LF then .fail .kBadRequest header
    else .go { header with parseState := .StatusCR } rest

/-- A line feed is the only character that may come. -/
def blockLineFeed (next : ResponseParseState) (data : Bytes) : Block HttpResponseHeader :=
  match data with
  | [] => .go header []
  | c :: rest =>
    if c ≠ LF then .fail .kBadRequest header else .go { header with parseState := next } rest

def blockStatusLF : Block HttpResponseHeader :=
  match data with
  | [] => .go header []
  | c :: rest =>
    if c = CR then .go { header with parseState := .HeaderEndCR } rest
    else if c = LF then .fail .kBadRequest header
    else .go { header.pushHeaderKeyChar c with parseState := .HeaderKey } rest

def blockHeaderKey : Block HttpResponseHeader :=
  let header := header.appendHeaderKeyChunk
    (data.takeWhile fun c => c != COLON && c != CR && c != LF)
  match data.dropWhile fun c => c != COLON && c != CR && c != LF with
  | [] => .go header []
  | c :: rest =>
    if c ≠ COLON then .fail .kBadRequest header else .ofResult rest header.finishKey

def blockHeaderColon : Block HttpResponseHeader :=
  match data with
  | [] => .go header []
  | c :: rest =>
    if c = SP then .go { header with parseState := .HeaderSpace } rest
    else if c = CR then .go header.finishValue rest
    else .go { header with
      parseHeaderValue := header.parseHeaderValue ++ [c], parseState := .HeaderValue } rest

def blockHeaderSpace : Block HttpResponseHeader :=
  match data.dropWhile (· == SP) with
  | [] => .go header []
  | c :: rest =>
    if c = CR then .go header.finishValue rest
    else .go { header with
      parseHeaderValue := header.parseHeaderValue ++ [c], parseState := .HeaderValue } rest

def blockHeaderValue : Block HttpResponseHeader :=
  let header := { header with
    parseHeaderValue := header.parseHeaderValue ++ data.takeWhile (· != CR) }
  match data.dropWhile (· != CR) with
  | [] => .go header []
  | _ :: rest => .go header.finishValue rest

def blockHeaderLF : Block HttpResponseHeader :=
  match data with
  | [] => .go header []
  | c :: rest =>
    if c = CR then .go { header with parseState := .HeaderEndCR } rest
    else .go { header.pushHeaderKeyChar c with parseState := .HeaderKey } rest

def blockHeaderEndCR : Block HttpResponseHeader :=
  match data with
  | [] => .go header []
  | c :: rest =>
    if c ≠ LF then .fail .kBadRequest header else .done { header with parseState := .Done } rest

/-- One turn on bytes that are not all read. -/
def parseBlock : Block HttpResponseHeader :=
  match header.parseState with
  | .Version => header.blockVersion data
  | .VersionSP => header.blockVersionSP data
  | .Code => header.blockCode data
  | .CodeSP => header.blockCodeSP data
  | .Status => header.blockStatus data
  | .StatusCR => header.blockLineFeed .StatusLF data
  | .StatusLF => header.blockStatusLF data
  | .HeaderKey => header.blockHeaderKey data
  | .HeaderColon => header.blockHeaderColon data
  | .HeaderSpace => header.blockHeaderSpace data
  | .HeaderValue => header.blockHeaderValue data
  | .HeaderCR => header.blockLineFeed .HeaderLF data
  | .HeaderLF => header.blockHeaderLF data
  | .HeaderEndCR => header.blockHeaderEndCR data
  | .Done => .done header data

theorem length_parseBlock {header : HttpResponseHeader} {data rest : Bytes}
    (hdata : data ≠ []) (h : header.parseBlock data = .go header' rest) :
    rest.length < data.length := by
  have hnil : ([] : Bytes).length < data.length := List.length_pos_iff.2 hdata
  unfold parseBlock blockVersion blockVersionSP blockCode blockCodeSP blockStatus blockLineFeed
    blockStatusLF blockHeaderKey blockHeaderColon blockHeaderSpace blockHeaderValue blockHeaderLF
    blockHeaderEndCR at h
  cases data with
  | nil => exact absurd rfl hdata
  | cons c tail =>
  have htail : tail.length < (c :: tail).length := Nat.lt_succ_self _
  simp only at h
  split at h
  all_goals
    repeat' split at h
  all_goals
    first
    | (cases h; done)
    | (cases h; exact hnil)
    | (cases h; exact htail)
    | (cases h; exact Lib.length_lt_of_dropWhile ‹_›)
    | exact (Block.ofResult_go h).1 ▸ Lib.length_lt_of_dropWhile ‹_›

def blocks : Lib.Scanner UInt8 HttpResponseHeader HttpErrorCode := ⟨parseBlock, length_parseBlock⟩

def fromIOVec (header : HttpResponseHeader) (iovecs : IoVecs) :
    (HttpErrorCode × Int) × HttpResponseHeader :=
  if header.parseState = .Done then ((.kNoError, 0), header)
  else fromIOVecLoop blocks.scan header 0 iovecs

end HttpResponseHeader

end Galay.Http
