import Galay.Http.Base
import Galay.Lib.FromChars

/-!
# Chunked transfer coding (`galay-http/protoc/http_chunk.cc`)

`ChunkParser` keeps its phase between calls. `Chunk::fromIOVec` keeps nothing: its caller drops the
bytes it reports as consumed. `simd` says whether the line scanner of the latter has its vector
loop; a read position in the array of `iovec` is the array of what is left of it.
-/

namespace Galay.Http

open List

def kMaxChunkLineSize : Nat := 1024

def parseChunkSizeLine (sizeBuffer : Bytes) : Except HttpError Nat :=
  let sizeText := sizeBuffer.takeWhile (· != 0x3b)
  if sizeText = [] then .error { code := .kChunkSizeConvertError }
  else
    match Lib.fromChars 16 sizeMax sizeText with
    | (.error .resultOutOfRange, _) => .error { code := .kInvalidChunkLength }
    | (.error .invalidArgument, _) => .error { code := .kChunkSizeConvertError }
    | (.ok parsedSize, rest) =>
      if rest = [] then .ok parsedSize else .error { code := .kChunkSizeConvertError }

def wouldExceedBodyLimit (bodySize appendSize maxBodySize : Nat) : Bool :=
  if maxBodySize = 0 then false
  else if maxBodySize < bodySize then true
  else maxBodySize - bodySize < appendSize

/-! ## The incremental parser -/

inductive ChunkPhase
  | kSizeLine
  | kData
  | kDataCrlf
  | kLastTrailerLine
  | kDone
  deriving DecidableEq, Repr

/-- A parser that reads data always has some left to read. -/
structure ChunkParser where
  lineBuffer : Bytes := []
  currentChunkSize : Nat := 0
  currentChunkRead : Nat := 0
  phase : ChunkPhase := .kSizeLine
  pendingCr : Bool := false
  read_lt : phase = .kData → currentChunkRead < currentChunkSize := by rintro ⟨⟩

/-- What a call leaves: the parser, the output string and the value returned. -/
structure ChunkOutcome where
  parser : ChunkParser
  body : Bytes
  result : Except HttpError (Bool × Nat)

namespace ChunkParser

variable (parser : ChunkParser)

/-- One character of a size line; the error is the value returned, if any. -/
def sizeLineChar (bodySize maxBodySize : Nat) (c : UInt8) :
    ChunkParser × Option HttpError :=
  if parser.pendingCr then
    let parser := { parser with pendingCr := false }
    if c != LF then (parser, some { code := .kInvalidChunkFormat })
    else
      match parseChunkSizeLine parser.lineBuffer with
      | .error error => (parser, some error)
      | .ok size =>
        if hsize : size = 0 then
          ({ parser with
            lineBuffer := []
            currentChunkSize := size
            currentChunkRead := 0
            phase := .kLastTrailerLine
            read_lt := nofun }, none)
        else if wouldExceedBodyLimit bodySize size maxBodySize then
          ({ parser with
            lineBuffer := []
            currentChunkSize := size
            currentChunkRead := 0
            read_lt := fun _ => Nat.pos_of_ne_zero hsize },
            some ⟨.kRequestEntityTooLarge, "chunked body exceeds max body size"⟩)
        else
          ({ parser with
            lineBuffer := []
            currentChunkSize := size
            currentChunkRead := 0
            phase := .kData
            read_lt := fun _ => Nat.pos_of_ne_zero hsize }, none)
  else if c == CR then ({ parser with pendingCr := true }, none)
  else if c == LF then (parser, some { code := .kInvalidChunkFormat })
  else if kMaxChunkLineSize ≤ parser.lineBuffer.length then
    (parser, some { code := .kInvalidChunkLength })
  else ({ parser with lineBuffer := parser.lineBuffer ++ [c] }, none)

/-- A block of data: the number of bytes to append, and the parser after them. -/
def dataBlock (inputRemaining : Nat) : Nat × ChunkParser :=
  let chunkRemaining := parser.currentChunkSize - parser.currentChunkRead
  let toRead := min chunkRemaining inputRemaining
  if hread : parser.currentChunkRead + toRead = parser.currentChunkSize then
    (toRead, { parser with
      currentChunkRead := parser.currentChunkRead + toRead
      phase := .kDataCrlf
      pendingCr := false
      read_lt := nofun })
  else
    (toRead, { parser with
      currentChunkRead := parser.currentChunkRead + toRead
      read_lt := by
        intro hph
        have hlt := parser.read_lt hph
        omega })

def dataCrlfChar (c : UInt8) : ChunkParser × Option HttpError :=
  if !parser.pendingCr then
    if c != CR then (parser, some { code := .kInvalidChunkFormat })
    else ({ parser with pendingCr := true }, none)
  else
    let parser := { parser with pendingCr := false }
    if c != LF then (parser, some { code := .kInvalidChunkFormat })
    else
      ({ parser with
        currentChunkSize := 0
        currentChunkRead := 0
        phase := .kSizeLine
        read_lt := nofun }, none)

/-- One character of the line after the last chunk; the parser may be done after it. -/
def lastTrailerLineChar (c : UInt8) : ChunkParser × Option HttpError :=
  if parser.pendingCr then
    let parser := { parser with pendingCr := false }
    if c != LF then (parser, some { code := .kInvalidChunkFormat })
    else if !parser.lineBuffer.isEmpty then (parser, some { code := .kInvalidChunkFormat })
    else ({ parser with phase := .kDone, read_lt := nofun }, none)
  else if c == CR then ({ parser with pendingCr := true }, none)
  else if c == LF then (parser, some { code := .kInvalidChunkFormat })
  else if kMaxChunkLineSize ≤ parser.lineBuffer.length then
    (parser, some { code := .kInvalidChunkLength })
  else ({ parser with lineBuffer := parser.lineBuffer ++ [c] }, none)

theorem dataBlock_pos {parser : ChunkParser} (hph : parser.phase = .kData)
    (hn : 0 < n) : 0 < (parser.dataBlock n).1 := by
  have hlt := parser.read_lt hph
  have hfst : (parser.dataBlock n).1 = min (parser.currentChunkSize - parser.currentChunkRead) n := by
    unfold dataBlock
    simp only
    split <;> rfl
  rw [hfst]
  omega

/-- The loop over one `iovec`: an outcome where the source returns from it, otherwise the parser,
the body and the count with which it goes on. -/
def parseIov (maxBodySize : Nat) (parser : ChunkParser) (body : Bytes) (consumed : Nat)
    (data : Bytes) : Except ChunkOutcome (ChunkParser × Bytes × Nat) :=
  match hdata : data with
  | [] => .ok (parser, body, consumed)
  | c :: rest =>
    match hph : parser.phase with
    | .kDone => .error ⟨parser, body, .ok (true, consumed)⟩
    | .kSizeLine =>
      match parser.sizeLineChar body.length maxBodySize c with
      | (parser, some error) => .error ⟨parser, body, .error error⟩
      | (parser, none) => parseIov maxBodySize parser body (consumed + 1) rest
    | .kData =>
      let toRead := (parser.dataBlock data.length).1
      parseIov maxBodySize (parser.dataBlock data.length).2 (body ++ data.take toRead)
        (consumed + toRead) (data.drop toRead)
    | .kDataCrlf =>
      match parser.dataCrlfChar c with
      | (parser, some error) => .error ⟨parser, body, .error error⟩
      | (parser, none) => parseIov maxBodySize parser body (consumed + 1) rest
    | .kLastTrailerLine =>
      match parser.lastTrailerLineChar c with
      | (parser, some error) => .error ⟨parser, body, .error error⟩
      | (parser, none) =>
        if parser.phase = .kDone then .error ⟨parser, body, .ok (true, consumed + 1)⟩
        else parseIov maxBodySize parser body (consumed + 1) rest
termination_by data.length
decreasing_by
  all_goals subst hdata
  · simp
  · have hpos := dataBlock_pos hph (n := (c :: rest).length) (by simp)
    simp only [List.length_drop]
    simp only [List.length_cons] at hpos ⊢
    omega
  · simp
  · simp

def parseIovs (maxBodySize : Nat) (parser : ChunkParser) (body : Bytes) (consumed : Nat) :
    IoVecs → ChunkOutcome
  | [] => ⟨parser, body, .ok (parser.phase = .kDone, consumed)⟩
  | iov :: iovecs =>
    match parseIov maxBodySize parser body consumed iov with
    | .error outcome => outcome
    | .ok (parser, body, consumed) => parseIovs maxBodySize parser body consumed iovecs

def parse (iovecs : IoVecs) (body : Bytes) (maxBodySize : Nat) :
    ChunkOutcome :=
  parseIovs maxBodySize parser body 0 iovecs

end ChunkParser

/-! ## The stateless decoder -/

namespace Chunk

/-- The bytes before the first block of sixteen that has a carriage return in it. -/
def skipBlocks : (fuel : Nat) → Bytes → Bytes
  | 0, _ => []
  | fuel + 1, segment =>
    if 16 ≤ segment.length ∧ CR ∉ segment.take 16 then
      segment.take 16 ++ skipBlocks fuel (segment.drop 16)
    else []

/-- What scanning one `iovec` for the end of a line has come to. -/
inductive LineScan
  | found (buffer : Bytes) (consumed : Nat)
  | notFound
  | next (buffer : Bytes) (consumed : Nat)

/-- The scalar loop. A carriage return that no line feed follows is left out of the buffer. The
first byte of the next `iovec` is read without a look at its length. -/
def scanLine (following : IoVecs) : (buffer : Bytes) → (consumed : Nat) → Bytes → LineScan
  | buffer, consumed, [] => .next buffer consumed
  | buffer, consumed, c :: rest =>
    if c == CR then
      match rest with
      | c' :: _ =>
        if c' == LF then .found buffer (consumed + 2)
        else scanLine following buffer (consumed + 1) rest
      | [] =>
        match following with
        | [] => .notFound
        | segment :: _ =>
          if segment.head? == some LF then .found buffer (consumed + 2)
          else .next buffer (consumed + 1)
    else if c == LF then .notFound
    else scanLine following (buffer ++ [c]) (consumed + 1) rest

/-- The line up to the next CRLF and the number of bytes it takes. -/
def findCRLF (simd : Bool) : (buffer : Bytes) → (consumed : Nat) → IoVecs → Option (Bytes × Nat)
  | _, _, [] => none
  | buffer, consumed, segment :: iovecs =>
    let block := if simd then skipBlocks segment.length segment else []
    match scanLine iovecs (buffer ++ block) (consumed + block.length)
        (segment.drop block.length) with
    | .found buffer consumed => some (buffer, consumed)
    | .notFound => none
    | .next buffer consumed => findCRLF simd buffer consumed iovecs

/-- The position `remaining` bytes further on. -/
def advance : (remaining : Nat) → IoVecs → IoVecs
  | _, [] => []
  | remaining, segment :: iovecs =>
    if remaining = 0 then segment :: iovecs
    else if segment.length ≤ remaining then advance (remaining - segment.length) iovecs
    else segment.drop remaining :: iovecs

/-- The bytes appended to the output. -/
def readData : (length : Nat) → IoVecs → Bytes
  | _, [] => []
  | length, segment :: iovecs =>
    if length = 0 then []
    else segment.take (min segment.length length) ++
      (if min segment.length length = segment.length then
        readData (length - min segment.length length) iovecs else [])

/-- The position behind the CRLF that must follow the data. -/
def dataCrlf : IoVecs → Option IoVecs
  | [] => none
  | segment :: iovecs =>
    match segment with
    | c :: c' :: rest => if c != CR || c' != LF then none else some (rest :: iovecs)
    | [c] =>
      if c == CR then
        match iovecs with
        | [] => none
        | next :: iovecs => if next.head? != some LF then none else some (next.drop 1 :: iovecs)
      else none
    | [] => none

theorem flatten_advance (remaining : Nat) (iovecs : IoVecs) :
    (advance remaining iovecs).flatten = iovecs.flatten.drop remaining := by
  induction iovecs generalizing remaining with
  | nil => simp [advance]
  | cons segment iovecs ih =>
  unfold advance
  split
  · next h => rw [h, drop_zero]
  split
  · next hle =>
    rw [ih, flatten_cons, drop_append, drop_of_length_le hle, nil_append]
  next hlt =>
  rw [flatten_cons, flatten_cons, drop_append,
    Nat.sub_eq_zero_of_le (Nat.le_of_not_le hlt), drop_zero]

theorem readData_eq (length : Nat) (iovecs : IoVecs) :
    readData length iovecs = iovecs.flatten.take length := by
  induction iovecs generalizing length with
  | nil => simp [readData]
  | cons segment iovecs ih =>
  rw [readData, flatten_cons, take_append]
  by_cases hzero : length = 0
  · rw [if_pos hzero, hzero]
    simp
  rw [if_neg hzero]
  by_cases hle : segment.length ≤ length
  · rw [Nat.min_eq_left hle, if_pos rfl, ih, take_of_length_le (le_refl _), take_of_length_le hle]
  rw [Nat.min_eq_right (by omega), if_neg (by omega), Nat.sub_eq_zero_of_le (by omega), take_zero]

theorem length_dataCrlf (h : dataCrlf iovecs = some iovecs') :
    iovecs'.flatten.length < iovecs.flatten.length := by
  unfold dataCrlf at h
  split at h
  · cases h
  split at h
  · split at h
    · cases h
    cases h
    simp only [flatten_cons, length_append, length_cons]
    omega
  · split at h
    · split at h
      · cases h
      split at h
      · cases h
      cases h
      simp only [flatten_cons, length_append, length_cons, length_drop, length_nil]
      omega
    cases h
  cases h

/-- The loop of `fromIOVec`: the value returned and the output string. -/
def fromIOVecLoop (simd : Bool) (iovecs : IoVecs) (chunkData : Bytes) (totalConsumed : Nat)
    (hasParsedChunk : Bool) : Except HttpError (Bool × Nat) × Bytes :=
  let incomplete (totalConsumed : Nat) : Except HttpError (Bool × Nat) × Bytes :=
    if hasParsedChunk then (.ok (false, totalConsumed), chunkData)
    else (.error { code := .kIncomplete }, chunkData)
  if iovecs = [] then incomplete totalConsumed
  else
    match findCRLF simd [] 0 iovecs with
    | none => incomplete totalConsumed
    | some (sizeBuffer, consumed) =>
      let totalConsumed := totalConsumed + consumed
      let iovecs' := advance consumed iovecs
      match parseChunkSizeLine sizeBuffer with
      | .error error => (.error error, chunkData)
      | .ok chunkSize =>
        if chunkSize = 0 then
          match findCRLF simd [] 0 iovecs' with
          | none => incomplete totalConsumed
          | some (trailingBuffer, trailingConsumed) =>
            if !trailingBuffer.isEmpty then (.error { code := .kInvalidChunkFormat }, chunkData)
            else (.ok (true, totalConsumed + trailingConsumed), chunkData)
        else if sizeMax - 2 < chunkSize then (.error { code := .kInvalidChunkLength }, chunkData)
        else if IoVecBytes.sum iovecs' < chunkSize + 2 then incomplete totalConsumed
        else
          let read := readData chunkSize iovecs'
          if read.length ≠ chunkSize then
            (.error { code := .kInvalidChunkFormat }, chunkData ++ read)
          else
            match hcrlf : dataCrlf (advance chunkSize iovecs') with
            | none => (.error { code := .kInvalidChunkFormat }, chunkData ++ read)
            | some iovecs'' =>
              fromIOVecLoop simd iovecs'' (chunkData ++ read) (totalConsumed + chunkSize + 2) true
termination_by iovecs.flatten.length
decreasing_by
  have hlt := length_dataCrlf hcrlf
  rw [flatten_advance, flatten_advance, List.length_drop, List.length_drop] at hlt
  omega

def fromIOVec (simd : Bool) (iovecs : IoVecs) (chunkData : Bytes) :
    Except HttpError (Bool × Nat) × Bytes :=
  fromIOVecLoop simd iovecs chunkData 0 false

end Chunk

end Galay.Http
