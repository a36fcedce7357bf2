import Galay.Http.HeaderParser

/-!
# Request headers (`galay-http/protoc/http_header.cc`, `HttpRequestHeader`)

Each case of the switch over the states is a definition of its own, in both parsers.
-/

namespace Galay.Http

inductive RequestParseState
  | Method
  | MethodSP
  | Uri
  | UriSP
  | Version
  | VersionCR
  | VersionLF
  | HeaderKey
  | HeaderColon
  | HeaderSpace
  | HeaderValue
  | HeaderCR
  | HeaderLF
  | HeaderEndCR
  | Done
  deriving DecidableEq, Repr

structure HttpRequestHeader where
  uri : Bytes := []
  argList : StringMap := ∅
  headerPairs : HeaderPair := {}
  parseMethodStr : Bytes := []
  parseUriStr : Bytes := []
  parseVersionStr : Bytes := []
  parseHeaderKey : Bytes := []
  parseHeaderValue : Bytes := []
  maxHeaderCount : Nat := 0
  maxHeaderLineSize : Nat := 0
  maxUriSize : Nat := 0
  headerCount : Nat := 0
  contentLengthValue : Nat := 0
  method : HttpMethod := .GET
  version : HttpVersion := .HttpVersion_1_1
  parseState : RequestParseState := .Method
  currentCommonHeaderIdx : CommonHeaderIndex := .NotCommon
  uriDecodeError : Bool := false
  hasContentLength : Bool := false

namespace HttpRequestHeader

variable (header : HttpRequestHeader)

/-! ## Parts of both parsers -/

def parseArgs (uri : Bytes) : HttpRequestHeader :=
  if 0x3f ∈ uri then
    { header with
      uri := uri.takeWhile (· != 0x3f)
      argList := parseArgsLoop header.argList [] [] false ((uri.dropWhile (· != 0x3f)).drop 1) }
  else header

/-- The end of the target: it is decoded and taken apart. -/
def finishUri : HttpErrorCode × HttpRequestHeader :=
  match convertFromUri false header.parseUriStr with
  | none => (.kUriEncodeError, { header with uriDecodeError := true })
  | some fullUri =>
    let header := { header with uriDecodeError := false }.parseArgs fullUri
    let header := if header.uri = [] then { header with uri := fullUri } else header
    (.kNoError, { header with parseState := .UriSP })

/-- The end of the version: only HTTP/1.0 and HTTP/1.1 are supported. -/
def finishVersion : HttpErrorCode × HttpRequestHeader :=
  let header := { header with version := stringToHttpVersion header.parseVersionStr }
  if header.version = .HttpVersion_Unknown then (.kVersionNotSupport, header)
  else if header.version ≠ .HttpVersion_1_0 ∧ header.version ≠ .HttpVersion_1_1 then
    (.kVersionNotSupport, header)
  else (.kNoError, { header with parseState := .VersionCR })

/-- The end of a header key. -/
def finishKey : HttpErrorCode × HttpRequestHeader :=
  if 256 < header.parseHeaderKey.length then (.kBadRequest, header)
  else
    let header :=
      if header.headerPairs.mode = .ServerSide then
        { header with currentCommonHeaderIdx := matchCommonHeader header.parseHeaderKey }
      else header
    (.kNoError, { header with parseState := .HeaderColon })

def uriTooLong : Bool := header.maxUriSize != 0 && header.maxUriSize < header.parseUriStr.length

/-- The header pair is stored and its parts are cleared. -/
def storeHeaderPair : HttpRequestHeader :=
  let pairs := header.headerPairs
  { header with
    headerPairs :=
      match pairs.mode with
      | .ServerSide =>
        if header.currentCommonHeaderIdx ≠ .NotCommon then
          pairs.setCommonHeader header.currentCommonHeaderIdx header.parseHeaderValue
        else
          pairs.mergeNormalizedUncommonHeaderPair header.parseHeaderKey header.parseHeaderValue
      | .ClientSide => pairs.addHeaderPair header.parseHeaderKey header.parseHeaderValue
    parseHeaderKey := []
    parseHeaderValue := []
    currentCommonHeaderIdx := .NotCommon }

def commitParsedHeaderPair : HttpErrorCode × HttpRequestHeader :=
  let lineSize := header.parseHeaderKey.length + 2 + header.parseHeaderValue.length
  if header.maxHeaderLineSize ≠ 0 ∧ header.maxHeaderLineSize < lineSize then
    (.kHeaderTooLarge, header)
  else
    let header := { header with headerCount := header.headerCount + 1 }
    if header.maxHeaderCount ≠ 0 ∧ header.maxHeaderCount < header.headerCount then
      (.kHeaderTooLarge, header)
    else if header.parseHeaderKey = ascii "content-length" then
      match parseSizeTStrict header.parseHeaderValue with
      | none => (.kBadRequest, header)
      | some length =>
        if header.hasContentLength ∧ header.contentLengthValue ≠ length then
          (.kBadRequest, header)
        else
          (.kNoError, storeHeaderPair
            { header with hasContentLength := true, contentLengthValue := length })
    else (.kNoError, header.storeHeaderPair)

/-- The end of a header value. -/
def finishValue : HttpErrorCode × HttpRequestHeader :=
  match header.commitParsedHeaderPair with
  | (.kNoError, header) => (.kNoError, { header with parseState := .HeaderCR })
  | (err, header) => (err, header)

/-! ## Character by character -/

variable (c : UInt8)

def charMethod : HttpErrorCode × HttpRequestHeader :=
  if c = SP then
    (.kNoError, { header with
      method := stringToHttpMethod header.parseMethodStr, parseState := .MethodSP })
  else if c = CR ∨ c = LF then (.kBadRequest, header)
  else (.kNoError, { header with parseMethodStr := header.parseMethodStr ++ [c] })

def charMethodSP : HttpErrorCode × HttpRequestHeader :=
  if c = SP then (.kNoError, header)
  else if c = CR ∨ c = LF then (.kBadRequest, header)
  else
    let header := { header with parseUriStr := header.parseUriStr ++ [c] }
    if header.uriTooLong then (.kUriTooLong, header)
    else (.kNoError, { header with parseState := .Uri })

def charUri : HttpErrorCode × HttpRequestHeader :=
  if c = SP then header.finishUri
  else if c = CR ∨ c = LF then (.kBadRequest, header)
  else
    let header := { header with parseUriStr := header.parseUriStr ++ [c] }
    if header.uriTooLong then (.kUriTooLong, header) else (.kNoError, header)

def charUriSP : HttpErrorCode × HttpRequestHeader :=
  if c = SP then (.kNoError, header)
  else if c = CR ∨ c = LF then (.kBadRequest, header)
  else
    (.kNoError, { header with
      parseVersionStr := header.parseVersionStr ++ [c], parseState := .Version })

def charVersion : HttpErrorCode × HttpRequestHeader :=
  if c = CR then header.finishVersion
  else if c = LF then (.kBadRequest, header)
  else (.kNoError, { header with parseVersionStr := header.parseVersionStr ++ [c] })

/-- A line feed is the only character that may come. -/
def charLineFeed (next : RequestParseState) (c : UInt8) : HttpErrorCode × HttpRequestHeader :=
  if c = LF then (.kNoError, { header with parseState := next }) else (.kBadRequest, header)

def charVersionLF : HttpErrorCode × HttpRequestHeader :=
  if c = CR then (.kNoError, { header with parseState := .HeaderEndCR })
  else if c = LF then (.kBadRequest, header)
  else
    (.kNoError, { header with
      parseHeaderKey := header.parseHeaderKey ++ [normalizeHeaderKeyChar c header.headerPairs.mode]
      parseState := .HeaderKey })

def charHeaderKey : HttpErrorCode × HttpRequestHeader :=
  if c = COLON then header.finishKey
  else if c = CR ∨ c = LF then (.kBadRequest, header)
  else if 256 ≤ header.parseHeaderKey.length then (.kBadRequest, header)
  else if header.headerPairs.mode = .ServerSide then
    (.kNoError, { header with parseHeaderKey := header.parseHeaderKey ++ [toLowerAsciiChar c] })
  else
    (.kNoError, { header with
      parseHeaderKey := header.parseHeaderKey ++ [normalizeHeaderKeyChar c header.headerPairs.mode] })

def charHeaderColon : HttpErrorCode × HttpRequestHeader :=
  if c = SP then (.kNoError, { header with parseState := .HeaderSpace })
  else if c = CR then header.finishValue
  else
    (.kNoError, { header with
      parseHeaderValue := header.parseHeaderValue ++ [c], parseState := .HeaderValue })

def charHeaderSpace : HttpErrorCode × HttpRequestHeader :=
  if c = SP then (.kNoError, header)
  else if c = CR then header.finishValue
  else
    (.kNoError, { header with
      parseHeaderValue := header.parseHeaderValue ++ [c], parseState := .HeaderValue })

def charHeaderValue : HttpErrorCode × HttpRequestHeader :=
  if c = CR then header.finishValue
  else (.kNoError, { header with parseHeaderValue := header.parseHeaderValue ++ [c] })

def charHeaderLF : HttpErrorCode × HttpRequestHeader :=
  if c = CR then (.kNoError, { header with parseState := .HeaderEndCR })
  else
    (.kNoError, { header with
      parseHeaderKey := header.parseHeaderKey ++ [normalizeHeaderKeyChar c header.headerPairs.mode]
      parseState := .HeaderKey })

def charHeaderEndCR : HttpErrorCode × HttpRequestHeader :=
  if c = LF then (.kIncomplete, { header with parseState := .Done }) else (.kBadRequest, header)

/-- The code `kIncomplete` says that the header is complete. -/
def parseChar : HttpErrorCode × HttpRequestHeader :=
  match header.parseState with
  | .Method => header.charMethod c
  | .MethodSP => header.charMethodSP c
  | .Uri => header.charUri c
  | .UriSP => header.charUriSP c
  | .Version => header.charVersion c
  | .VersionCR => header.charLineFeed .VersionLF c
  | .VersionLF => header.charVersionLF c
  | .HeaderKey => header.charHeaderKey c
  | .HeaderColon => header.charHeaderColon c
  | .HeaderSpace => header.charHeaderSpace c
  | .HeaderValue => header.charHeaderValue c
  | .HeaderCR => header.charLineFeed .HeaderLF c
  | .HeaderLF => header.charHeaderLF c
  | .HeaderEndCR => header.charHeaderEndCR c
  | .Done => (.kIncomplete, header)

variable {c}

def fromString (str : Bytes) : (HttpErrorCode × Int) × HttpRequestHeader :=
  if header.parseState = .Done then ((.kNoError, 0), header)
  else fromStringLoop parseChar header 0 str

/-! ## Block by block -/

def appendHeaderKeyChunk (chunk : Bytes) : HttpRequestHeader :=
  if header.headerPairs.mode = .ServerSide then
    { header with parseHeaderKey := header.parseHeaderKey ++ chunk.map toLowerAsciiChar }
  else { header with parseHeaderKey := header.parseHeaderKey ++ chunk }

variable (data : Bytes)

def blockMethod : Block HttpRequestHeader :=
  let word := data.takeWhile fun c => c != SP && c != CR && c != LF
  let header := { header with parseMethodStr := header.parseMethodStr ++ word }
  match data.dropWhile fun c => c != SP && c != CR && c != LF with
  | [] => .go header []
  | c :: rest =>
    if c ≠ SP then .fail .kBadRequest header
    else .go { header with
      method := stringToHttpMethod header.parseMethodStr, parseState := .MethodSP } rest

def blockMethodSP : Block HttpRequestHeader :=
  match data.dropWhile (· == SP) with
  | [] => .go header []
  | c :: rest =>
    if c = CR ∨ c = LF then .fail .kBadRequest header
    else
      let header := { header with parseUriStr := header.parseUriStr ++ [c] }
      if header.uriTooLong then .fail .kUriTooLong header
      else .go { header with parseState := .Uri } rest

def blockUri : Block HttpRequestHeader :=
  let word := data.takeWhile fun c => c != SP && c != CR && c != LF
  let header := { header with parseUriStr := header.parseUriStr ++ word }
  if word ≠ [] ∧ header.uriTooLong then .fail .kUriTooLong header
  else
    match data.dropWhile fun c => c != SP && c != CR && c != LF with
    | [] => .go header []
    | c :: rest =>
      if c ≠ SP then .fail .kBadRequest header else .ofResult rest header.finishUri

def blockUriSP : Block HttpRequestHeader :=
  match data.dropWhile (· == SP) with
  | [] => .go header []
  | c :: rest =>
    if c = CR ∨ c = LF then .fail .kBadRequest header
    else .go { header with
      parseVersionStr := header.parseVersionStr ++ [c], parseState := .Version } rest

def blockVersion : Block HttpRequestHeader :=
  let word := data.takeWhile fun c => c != CR && c != LF
  let header := { header with parseVersionStr := header.parseVersionStr ++ word }
  match data.dropWhile fun c => c != CR && c != LF with
  | [] => .go header []
  | c :: rest =>
    if c = LF then .fail .kBadRequest header else .ofResult rest header.finishVersion

/-- A line feed is the only character that may come. -/
def blockLineFeed (next : RequestParseState) (data : Bytes) : Block HttpRequestHeader :=
  match data with
  | [] => .go header []
  | c :: rest =>
    if c ≠ LF then .fail .kBadRequest header else .go { header with parseState := next } rest

def blockVersionLF : Block HttpRequestHeader :=
  match data with
  | [] => .go header []
  | c :: rest =>
    if c = CR then .go { header with parseState := .HeaderEndCR } rest
    else if c = LF then .fail .kBadRequest header
    else .go { header with
      parseHeaderKey := header.parseHeaderKey ++ [normalizeHeaderKeyChar c header.headerPairs.mode]
      parseState := .HeaderKey } rest

def blockHeaderKey : Block HttpRequestHeader :=
  let header := header.appendHeaderKeyChunk
    (data.takeWhile fun c => c != COLON && c != CR && c != LF)
  match data.dropWhile fun c => c != COLON && c != CR && c != LF with
  | [] => .go header []
  | c :: rest =>
    if c ≠ COLON then .fail .kBadRequest header else .ofResult rest header.finishKey

def blockHeaderColon : Block HttpRequestHeader :=
  match data with
  | [] => .go header []
  | c :: rest =>
    if c = SP then .go { header with parseState := .HeaderSpace } rest
    else if c = CR then .ofResult rest header.finishValue
    else .go { header with
      parseHeaderValue := header.parseHeaderValue ++ [c], parseState := .HeaderValue } rest

def blockHeaderSpace : Block HttpRequestHeader :=
  match data.dropWhile (· == SP) with
  | [] => .go header []
  | c :: rest =>
    if c = CR then .ofResult rest header.finishValue
    else .go { header with
      parseHeaderValue := header.parseHeaderValue ++ [c], parseState := .HeaderValue } rest

def blockHeaderValue : Block HttpRequestHeader :=
  let header := { header with
    parseHeaderValue := header.parseHeaderValue ++ data.takeWhile (· != CR) }
  match data.dropWhile (· != CR) with
  | [] => .go header []
  | _ :: rest => .ofResult rest header.finishValue

def blockHeaderLF : Block HttpRequestHeader :=
  match data with
  | [] => .go header []
  | c :: rest =>
    if c = CR then .go { header with parseState := .HeaderEndCR } rest
    else .go { header with
      parseHeaderKey := header.parseHeaderKey ++ [normalizeHeaderKeyChar c header.headerPairs.mode]
      parseState := .HeaderKey } rest

def blockHeaderEndCR : Block HttpRequestHeader :=
  match data with
  | [] => .go header []
  | c :: rest =>
    if c ≠ LF then .fail .kBadRequest header else .done { header with parseState := .Done } rest

/-- One turn on bytes that are not all read. -/
def parseBlock : Block HttpRequestHeader :=
  match header.parseState with
  | .Method => header.blockMethod data
  | .MethodSP => header.blockMethodSP data
  | .Uri => header.blockUri data
  | .UriSP => header.blockUriSP data
  | .Version => header.blockVersion data
  | .VersionCR => header.blockLineFeed .VersionLF data
  | .VersionLF => header.blockVersionLF data
  | .HeaderKey => header.blockHeaderKey data
  | .HeaderColon => header.blockHeaderColon data
  | .HeaderSpace => header.blockHeaderSpace data
  | .HeaderValue => header.blockHeaderValue data
  | .HeaderCR => header.blockLineFeed .HeaderLF data
  | .HeaderLF => header.blockHeaderLF data
  | .HeaderEndCR => header.blockHeaderEndCR data
  | .Done => .done header data

theorem length_parseBlock {header : HttpRequestHeader} {data rest : Bytes}
    (hdata : data ≠ []) (h : header.parseBlock data = .go header' rest) :
    rest.length < data.length := by
  have hnil : ([] : Bytes).length < data.length := List.length_pos_iff.2 hdata
  unfold parseBlock blockMethod blockMethodSP blockUri blockUriSP blockVersion blockLineFeed
    blockVersionLF blockHeaderKey blockHeaderColon blockHeaderSpace blockHeaderValue blockHeaderLF
    blockHeaderEndCR at h
  cases data with
  | nil => exact absurd rfl hdata
  | cons c tail =>
  have htail : tail.length < (c :: tail).length := Nat.lt_succ_self _
  simp only at h
  split at h
  all_goals
    repeat' split at h
  all_goals
    first
    | (cases h; done)
    | (cases h; exact hnil)
    | (cases h; exact htail)
    | (cases h; exact Lib.length_lt_of_dropWhile ‹_›)
    | exact (Block.ofResult_go h).1 ▸ htail
    | exact (Block.ofResult_go h).1 ▸ Lib.length_lt_of_dropWhile ‹_›

def blocks : Lib.Scanner UInt8 HttpRequestHeader HttpErrorCode := ⟨parseBlock, length_parseBlock⟩

def fromIOVec (header : HttpRequestHeader) (iovecs : IoVecs) :
    (HttpErrorCode × Int) × HttpRequestHeader :=
  if header.parseState = .Done then ((.kNoError, 0), header)
  else fromIOVecLoop blocks.scan header 0 iovecs

def isChunked (header : HttpRequestHeader) : Bool :=
  match header.headerPairs.getValuePtr (ascii "transfer-encoding") with
  | some te => containsCommaSeparatedHeaderValue te (ascii "chunked")
  | none => false

end HttpRequestHeader

end Galay.Http
