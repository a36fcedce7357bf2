import Galay.Http.ChunkSplit
import Galay.Http.Request
import Galay.Http.RequestHeaderBlocks

/-!
# Requests do not see how their bytes arrive

One byte at a time a request is a machine (`HttpRequest.react`) that goes from its header to the
body the header declares. A call of `fromIOVec` is a run of this machine.
-/

namespace Galay.Http

open List
open Lib (Reaction Progress feed)

/-! ## The coding of the body -/

theorem mem_dropWhile {value : Bytes} (hc : p c = false)
    (h : c ∈ value) : c ∈ value.dropWhile p := by
  rw [← takeWhile_append_dropWhile (p := p) (l := value), mem_append] at h
  rcases h with h | h
  · rw [List.all_eq_true.1 all_takeWhile c h] at hc
    cases hc
  exact h

theorem mem_trimAscii (hc : isSpace c = false) (h : c ∈ value) : c ∈ trimAscii value :=
  List.mem_reverse.2 (mem_dropWhile hc (List.mem_reverse.2 (mem_dropWhile hc h)))

/-- The test made when the header is complete is stricter than the one made later. -/
theorem headerValueContainsToken_of_single {expected : Bytes} (hexp : expected ≠ [])
    (h : isSingleHeaderToken value expected = true) :
    headerValueContainsToken value expected = true := by
  simp only [isSingleHeaderToken, Bool.and_eq_true, Bool.not_eq_true', contains_eq_mem,
    decide_eq_false_iff_not] at h
  obtain ⟨hcomma, hequal⟩ := h
  have hsplit : splitComma value = [value] := by
    rw [splitComma, splitOn_eq_splitOnP]
    refine splitOnP_eq_singleton fun c hc => ?_
    rw [beq_eq_false_iff_ne]
    rintro rfl
    exact hcomma (mem_trimAscii (by decide) hc)
  have htrim : trimAscii value ≠ [] := by
    intro hnil
    rw [hnil, equalsIgnoreCaseAscii, beq_iff_eq] at hequal
    exact hexp (List.map_eq_nil_iff.1 hequal.symm)
  have hval : value ≠ [] := by
    rintro rfl
    exact htrim rfl
  rw [headerValueContainsToken, if_neg (not_or.2 ⟨hval, hexp⟩), hsplit]
  simp [htrim, hequal]

namespace HeaderPair

variable {pairs : HeaderPair}

theorem lookup_erase_none {map : StringMap} (h : map.lookup key = none) (key' : Bytes) :
    (map.erase key').lookup key = none := by
  rw [AList.lookup_eq_none] at h ⊢
  exact fun hmem => h (AList.mem_erase.1 hmem).2

theorem lookup_removeHeaderPair (h : pairs.headerPairs.lookup key = none) :
    (pairs.removeHeaderPair key').headerPairs.lookup key = none := by
  unfold removeHeaderPair
  generalize (if hasUpperAscii key' then toLowerAscii key' else key') = normalized
  simp only
  split
  · exact h
  split
  · exact h
  exact lookup_erase_none h _

theorem lookup_removeHeaderPair_self
    (hidx : matchCommonHeader (if hasUpperAscii key then toLowerAscii key else key) = .NotCommon) :
    (pairs.removeHeaderPair key).headerPairs.lookup key = none := by
  unfold removeHeaderPair
  simp only [hidx, ne_eq, not_true_eq_false, false_and, and_false, if_false]
  by_cases hkey : (pairs.headerPairs.lookup key).isSome = true
  · have hfind : pairs.findHeaderPairIter key = some key := if_pos hkey
    rw [hfind]
    exact AList.lookup_erase key _
  have hnone : pairs.headerPairs.lookup key = none := by simpa using hkey
  split
  · exact hnone
  exact lookup_erase_none hnone _

theorem getValuePtr_transferEncoding
    (hlower : pairs.headerPairs.lookup (ascii "transfer-encoding") = none)
    (hcanonical : pairs.headerPairs.lookup (ascii "Transfer-Encoding") = none) :
    pairs.getValuePtr (ascii "transfer-encoding") = none := by
  have hupper : hasUpperAscii (ascii "transfer-encoding") = false := by decide
  have hidx : matchCommonHeader (ascii "transfer-encoding") = .NotCommon := by decide
  have hkey : toCanonicalHeaderKey (ascii "transfer-encoding") = ascii "Transfer-Encoding" := by
    decide
  have hfind : pairs.findHeaderPairIter (ascii "transfer-encoding") = none := by
    unfold findHeaderPairIter
    rw [hlower, hkey, hupper]
    simp only [hcanonical, Option.isSome_none, Bool.false_eq_true, if_false, Bool.not_false, if_true, ite_self]
    split <;> rfl
  unfold getValuePtr
  simp only [hupper, Bool.false_eq_true, if_false, hidx, ne_eq, not_true_eq_false, and_false, hfind,
    Option.bind_none]

theorem lookup_addHeaderPair
    (hkey : key ≠ ascii "Content-Length") (h : pairs.headerPairs.lookup key = none) :
    (pairs.addHeaderPair (ascii "content-length") value).headerPairs.lookup key = none := by
  have hupper : hasUpperAscii (ascii "content-length") = false := by decide
  have hidx : matchCommonHeader (ascii "content-length") = .ContentLength := by decide
  have hcanonical : toCanonicalHeaderKey (ascii "content-length") = ascii "Content-Length" := by
    decide
  unfold addHeaderPair
  split
  · simp only [hupper, Bool.false_eq_true, if_false, hidx, ne_eq, reduceCtorEq, not_false_eq_true,
      if_true]
    unfold setCommonHeader
    split <;> exact h
  rw [hcanonical]
  exact (AList.lookup_insert_ne hkey).trans h

end HeaderPair

namespace HttpRequest

variable {request : HttpRequest}

theorem isChunked_finishChunked (request : HttpRequest) :
    request.finishChunked.header.isChunked = false := by
  have hloose : ∀ key ∈ [ascii "transfer-encoding", ascii "Transfer-Encoding"],
      (removeHeaderPairLoose request.header.headerPairs (ascii "transfer-encoding")).headerPairs.lookup
        key = none := by
    have hlower : (ascii "transfer-encoding").map toLowerAsciiChar = ascii "transfer-encoding" := by
      decide
    have hupper : (ascii "transfer-encoding").map toUpperAsciiChar = ascii "TRANSFER-ENCODING" := by
      decide
    have hcanonical : toCanonicalHeaderKey (ascii "transfer-encoding") =
        ascii "Transfer-Encoding" := by decide
    have hneUpper : ascii "TRANSFER-ENCODING" ≠ ascii "transfer-encoding" := by decide
    have hneCanonical : ascii "Transfer-Encoding" ≠ ascii "transfer-encoding" := by decide
    have hneBoth : ascii "Transfer-Encoding" ≠ ascii "TRANSFER-ENCODING" := by decide
    unfold removeHeaderPairLoose
    simp only [hlower, hupper, hcanonical, ne_eq, not_true_eq_false, if_false, hneUpper,
      not_false_eq_true, and_self, if_true, hneCanonical, hneBoth]
    intro key hkey
    rcases List.mem_pair.1 hkey with rfl | rfl
    · exact HeaderPair.lookup_removeHeaderPair (HeaderPair.lookup_removeHeaderPair
        (HeaderPair.lookup_removeHeaderPair_self (by decide)))
    exact HeaderPair.lookup_removeHeaderPair_self (by decide)
  unfold HttpRequestHeader.isChunked finishChunked
  simp only
  rw [HeaderPair.getValuePtr_transferEncoding]
  · exact HeaderPair.lookup_addHeaderPair (by decide) (hloose _ (by simp))
  exact HeaderPair.lookup_addHeaderPair (by decide) (hloose _ (by simp))

/-! ## One byte -/

def reactFraming : Framing → Reaction HttpRequest HttpErrorCode
  | .fail err _ => .fail err
  | .noBody request => .stop request
  | .body _ request => .next request

variable (request)

def setHeader (header : HttpRequestHeader) : HttpRequest :=
  { request with header := header }

def setChunk (state : ChunkParser × Bytes) : HttpRequest :=
  { request with chunkParser := state.1, body := state.2 }

def appendBody (read : Bytes) : HttpRequest :=
  { request with body := request.body ++ read, bodyParsed := request.bodyParsed + read.length }

variable {request}

def react (maxBodySize : Nat) (request : HttpRequest) (c : UInt8) :
    Reaction HttpRequest HttpErrorCode :=
  if request.headerParsed = false then
    (Http.react HttpRequestHeader.blockChar request.header c).embed request.setHeader
      (fun header =>
        reactFraming (frame { request with header := header, headerParsed := true } maxBodySize)) id
  else if request.header.isChunked then
    (ChunkParser.react maxBodySize (request.chunkParser, request.body) c).embed request.setChunk
      (fun state => .stop (request.setChunk state).finishChunked) fun failure => failure.2.2.code
  else if request.contentLength ≤ request.bodyParsed + 1 then .stop (request.appendBody [c])
  else .next (request.appendBody [c])

/-- A request whose bytes have not all come. -/
inductive InProgress (request : HttpRequest) : Prop
  | header (hparsed : request.headerParsed = false) (hopen : request.header.parseState ≠ .Done)
    (hph : request.chunkParser.phase ≠ .kDone) (hlen : request.contentLength = 0)
    (hbody : request.bodyParsed = 0)
  | chunked (hparsed : request.headerParsed = true) (hchunked : request.header.isChunked = true)
    (hph : request.chunkParser.phase ≠ .kDone)
  | plain (hparsed : request.headerParsed = true) (hchunked : request.header.isChunked = false)
    (hbody : request.bodyParsed < request.contentLength)

theorem InProgress.isComplete (h : request.InProgress) : request.isComplete = false := by
  unfold HttpRequest.isComplete
  cases h with
  | header hparsed => rw [hparsed, Bool.false_and, Bool.false_and]
  | chunked hparsed hchunked => rw [hchunked, Bool.not_true, Bool.and_false, Bool.false_and]
  | plain hparsed hchunked hbody =>
  rw [decide_eq_false (by omega), Bool.and_false]

/-- How a call reports a run over bytes with `consumed` bytes before them. -/
def Reports (progress : Progress HttpRequest HttpErrorCode) (length consumed : Nat)
    (result : (HttpErrorCode × Int) × HttpRequest) : Prop :=
  match progress with
  | .more request =>
    request.InProgress ∧ result = ((HttpErrorCode.kNoError, ((consumed + length : Nat) : Int)), request)
  | .stopped request n =>
    request.isComplete = true ∧
      result = ((HttpErrorCode.kNoError, ((consumed + n : Nat) : Int)), request)
  | .failed err => err ≠ .kNoError ∧ result.1 = (err, -1)

/-! ## The body -/

theorem flatten_sliceIovecs (iovecs : IoVecs) (skip : Nat) :
    (sliceIovecs iovecs skip).flatten = iovecs.flatten.drop skip := by
  induction iovecs generalizing skip with
  | nil => simp [sliceIovecs]
  | cons iov iovecs ih =>
  rw [sliceIovecs, flatten_cons, drop_append]
  split
  · next hle => rw [ih, drop_of_length_le hle, nil_append]
  next hlt =>
  rw [flatten_cons, ih, drop_zero, Nat.sub_eq_zero_of_le (by omega), drop_zero]

theorem feed_plain (hparsed : request.headerParsed = true)
    (hchunked : request.header.isChunked = false) (hbody : request.bodyParsed < request.contentLength)
    (data : Bytes) :
    feed (react maxBodySize) request data =
      if data.length < request.contentLength - request.bodyParsed then .more (request.appendBody data)
      else
        .stopped
          (request.appendBody (data.take (request.contentLength - request.bodyParsed)))
          (request.contentLength - request.bodyParsed) := by
  induction data generalizing request with
  | nil =>
    rw [if_pos (by rw [length_nil]; omega), Lib.feed_nil]
    simp [appendBody]
  | cons c data ih =>
  have hreact : react maxBodySize request c =
      if request.contentLength ≤ request.bodyParsed + 1 then .stop (request.appendBody [c])
      else .next (request.appendBody [c]) := by
    simp [react, hparsed, hchunked]
  by_cases hlast : request.contentLength ≤ request.bodyParsed + 1
  · have hone : request.contentLength - request.bodyParsed = 1 := by omega
    rw [if_pos hlast] at hreact
    rw [Lib.feed_stop hreact, hone, if_neg (by simp), take_succ_cons, take_zero]
  rw [if_neg hlast] at hreact
  have hsucc : request.contentLength - request.bodyParsed =
      request.contentLength - (request.bodyParsed + 1) + 1 := by omega
  have happend : ∀ read, (request.appendBody [c]).appendBody read =
      request.appendBody (c :: read) := by
    intro read
    simp [appendBody, Nat.add_assoc, Nat.add_comm 1]
  have hlt : request.bodyParsed + 1 < request.contentLength := by omega
  have hrest := @ih (request.appendBody [c]) hparsed hchunked hlt
  have hneed : (request.appendBody [c]).contentLength - (request.appendBody [c]).bodyParsed =
      request.contentLength - (request.bodyParsed + 1) := rfl
  rw [Lib.feed_next hreact, hrest, hneed, hsucc, happend, happend, length_cons, take_succ_cons]
  generalize request.contentLength - (request.bodyParsed + 1) = need
  by_cases hmore : data.length < need
  · rw [if_pos hmore, if_pos (by omega), Progress.shift_more]
  rw [if_neg hmore, if_neg (by omega), Progress.shift_stopped, Nat.add_comm 1]

theorem feed_chunked (hparsed : request.headerParsed = true)
    (hchunked : request.header.isChunked = true) (data : Bytes) :
    feed (react maxBodySize) request data =
      match feed (ChunkParser.react maxBodySize) (request.chunkParser, request.body) data with
      | .more state => .more (request.setChunk state)
      | .failed failure => .failed failure.2.2.code
      | .stopped state n => .stopped (request.setChunk state).finishChunked n := by
  have hreact : ∀ state c, react maxBodySize (request.setChunk state) c =
      (ChunkParser.react maxBodySize state c).embed request.setChunk
        (fun state' => .stop (request.setChunk state').finishChunked)
        fun failure => failure.2.2.code := by
    intro state c
    have hparsed' : (request.setChunk state).headerParsed ≠ false := by
      rw [ne_eq, Bool.not_eq_false]
      exact hparsed
    have hchunked' : (request.setChunk state).header.isChunked = true := hchunked
    rw [react, if_neg hparsed', if_pos hchunked']
    rfl
  refine (Lib.feed_phase hreact (request.chunkParser, request.body) data).trans ?_
  cases feed (ChunkParser.react maxBodySize) (request.chunkParser, request.body) data with
  | more state => rfl
  | failed failure => rfl
  | stopped state n => rfl

theorem chunk_code {failure : ChunkParser × Bytes × HttpError}
    (h : ChunkParser.react maxBodySize state c = .fail failure) :
    failure.2.2.code ≠ .kNoError ∧ failure.2.2.code ≠ .kIncomplete := by
  have hchar : ∀ {body : Bytes} {step : ChunkParser × Option HttpError},
      ChunkParser.reactChar body step = .fail failure → step.2 = some failure.2.2 := by
    intro body step hstep
    unfold ChunkParser.reactChar at hstep
    split at hstep
    · cases hstep
      rfl
    split at hstep <;> cases hstep
  have hline : ∀ {line : Bytes} {error : HttpError}, parseChunkSizeLine line = .error error →
      error.code ≠ .kNoError ∧ error.code ≠ .kIncomplete := by
    intro line error hparse
    unfold parseChunkSizeLine at hparse
    simp only at hparse
    repeat' split at hparse
    all_goals cases hparse
    all_goals exact ⟨by rintro ⟨⟩, by rintro ⟨⟩⟩
  have hcode : ∀ {step : ChunkParser × Option HttpError}, (∀ error, step.2 = some error →
      error.code ≠ .kNoError ∧ error.code ≠ .kIncomplete) →
      ∀ {body : Bytes}, ChunkParser.reactChar body step = .fail failure →
      failure.2.2.code ≠ .kNoError ∧ failure.2.2.code ≠ .kIncomplete :=
    fun hstep _ hreact => hstep _ (hchar hreact)
  unfold ChunkParser.react at h
  split at h
  · refine hcode (fun error herr => ?_) h
    unfold ChunkParser.sizeLineChar at herr
    simp only at herr
    repeat' split at herr
    all_goals cases herr
    all_goals first | exact hline ‹_› | exact ⟨by rintro ⟨⟩, by rintro ⟨⟩⟩
  · cases h
  · refine hcode (fun error herr => ?_) h
    unfold ChunkParser.dataCrlfChar at herr
    repeat' split at herr
    all_goals cases herr
    all_goals exact ⟨by rintro ⟨⟩, by rintro ⟨⟩⟩
  · refine hcode (fun error herr => ?_) h
    unfold ChunkParser.lastTrailerLineChar at herr
    simp only at herr
    repeat' split at herr
    all_goals cases herr
    all_goals exact ⟨by rintro ⟨⟩, by rintro ⟨⟩⟩
  cases h

section

variable (hparsed : request.headerParsed = true)
include hparsed

theorem isComplete_finishChunked :
    request.finishChunked.isComplete = true := by
  have hparsed' : request.finishChunked.headerParsed = true := hparsed
  have hle : request.finishChunked.contentLength ≤ request.finishChunked.bodyParsed := le_refl _
  rw [isComplete, hparsed', isChunked_finishChunked, decide_eq_true hle]
  rfl

theorem parseBody_chunked (hchunked : request.header.isChunked = true)
    (hph : request.chunkParser.phase ≠ .kDone) (iovecs : IoVecs) (headerBytes : Nat) :
    Reports (feed (react maxBodySize) request (iovecs.flatten.drop headerBytes))
      (iovecs.flatten.drop headerBytes).length headerBytes
      (request.parseBody iovecs maxBodySize headerBytes true) := by
  rw [feed_chunked hparsed hchunked, parseBody, if_pos rfl]
  simp only
  have hflat := flatten_sliceIovecs iovecs headerBytes
  generalize sliceIovecs iovecs headerBytes = bodyIovecs at hflat ⊢
  rw [← hflat]
  by_cases hnil : bodyIovecs = []
  · subst hnil
    exact ⟨.chunked hparsed hchunked hph, rfl⟩
  rw [if_neg hnil, ChunkParser.parse, ChunkParser.parseIovs_eq hph]
  cases hfeed : feed (ChunkParser.react maxBodySize) (request.chunkParser, request.body)
      bodyIovecs.flatten with
  | more state =>
    have hmore : state.1.phase ≠ .kDone :=
      Lib.feed_more_invariant (P := fun state => state.1.phase ≠ .kDone) ChunkParser.react_next
        hph hfeed
    refine ⟨.chunked hparsed hchunked hmore, ?_⟩
    simp [ChunkParser.outcome, setChunk]
  | stopped state n =>
    refine ⟨isComplete_finishChunked hparsed, ?_⟩
    simp [ChunkParser.outcome, setChunk]
  | failed failure =>
  obtain ⟨before, c, -, hfail⟩ :=
    Lib.feed_failed_invariant (P := fun _ => True) (fun _ _ => trivial) trivial hfeed
  obtain ⟨hok, hinc⟩ := chunk_code hfail
  refine ⟨hok, ?_⟩
  simp [ChunkParser.outcome, hinc]

theorem parseBody_plain (hchunked : request.header.isChunked = false)
    (hbody : request.bodyParsed < request.contentLength) (iovecs : IoVecs) (headerBytes : Nat) :
    Reports (feed (react maxBodySize) request (iovecs.flatten.drop headerBytes))
      (iovecs.flatten.drop headerBytes).length headerBytes
      (request.parseBody iovecs maxBodySize headerBytes false) := by
  have hread : Chunk.readData (request.contentLength - request.bodyParsed)
      (Chunk.advance headerBytes iovecs) =
      (iovecs.flatten.drop headerBytes).take (request.contentLength - request.bodyParsed) := by
    rw [Chunk.readData_eq, Chunk.flatten_advance]
  have hlen : request.contentLength ≠ 0 := by omega
  simp only [parseBody, Bool.false_eq_true, if_false, hlen, hread]
  rw [feed_plain hparsed hchunked hbody]
  generalize iovecs.flatten.drop headerBytes = data
  by_cases hmore : data.length < request.contentLength - request.bodyParsed
  · rw [if_pos hmore, take_of_length_le (by omega)]
    have hbody' : request.bodyParsed + data.length < request.contentLength := by omega
    exact ⟨.plain hparsed hchunked hbody', rfl⟩
  rw [if_neg hmore]
  have htake : (data.take (request.contentLength - request.bodyParsed)).length =
      request.contentLength - request.bodyParsed := by
    rw [length_take]
    omega
  refine ⟨?_, ?_⟩
  · have hle : request.contentLength ≤ request.bodyParsed +
        (data.take (request.contentLength - request.bodyParsed)).length := by omega
    simp only [isComplete, appendBody, hparsed, hchunked, decide_eq_true hle, Bool.not_false,
      Bool.and_self]
  simp only [appendBody, htake]

end

/-! ## The header -/

/-- The length that a header declares for a body without a transfer coding. -/
def declaredLength (header : HttpRequestHeader) : Nat :=
  match header.headerPairs.getValuePtr (ascii "content-length") with
  | some text => (parseSizeTStrict text).getD 0
  | none => 0

theorem frame_cases (hlen : request.contentLength = 0) (maxBodySize : Nat) :
    (∃ err request', request.frame maxBodySize = .fail err request' ∧ err ≠ .kNoError) ∨
    (request.frame maxBodySize = .noBody request ∧ request.header.isChunked = false ∧
      request.transferEncoding = none ∧ declaredLength request.header = 0) ∨
    (request.frame maxBodySize = .body true request ∧ request.header.isChunked = true ∧
      request.transferEncoding ≠ none) ∨
    (request.frame maxBodySize =
        .body false { request with contentLength := declaredLength request.header } ∧
      request.header.isChunked = false ∧ request.transferEncoding = none ∧
      declaredLength request.header ≠ 0) := by
  have hisChunked : request.header.isChunked =
      match request.transferEncoding with
      | some te => headerValueContainsToken te (ascii "chunked")
      | none => false := rfl
  unfold frame
  cases hte : request.transferEncoding with
  | some te =>
    simp only [hte] at hisChunked ⊢
    split
    · exact .inl ⟨_, _, rfl, nofun⟩
    split
    · exact .inl ⟨_, _, rfl, nofun⟩
    next hsingle =>
    simp only [Bool.not_eq_true, Bool.not_eq_false'] at hsingle
    rw [headerValueContainsToken_of_single (by decide) hsingle] at hisChunked
    exact .inr (.inr (.inl ⟨rfl, hisChunked, nofun⟩))
  | none =>
  simp only [hte] at hisChunked ⊢
  cases hcl : request.header.headerPairs.getValuePtr (ascii "content-length") with
  | none =>
    have hdeclared : declaredLength request.header = 0 := by rw [declaredLength, hcl]
    exact .inr (.inl ⟨rfl, hisChunked, trivial, hdeclared⟩)
  | some text =>
  have hdeclared : declaredLength request.header = (parseSizeTStrict text).getD 0 := by
    rw [declaredLength, hcl]
  simp only
  split
  · next hnil =>
    subst hnil
    exact .inr (.inl ⟨rfl, hisChunked, trivial, hdeclared⟩)
  cases hparse : parseSizeTStrict text with
  | none => exact .inl ⟨_, _, rfl, nofun⟩
  | some length =>
  rw [hparse, Option.getD_some] at hdeclared
  simp only
  split
  · exact .inl ⟨_, _, rfl, nofun⟩
  split
  · next hzero =>
    have hsame : { request with contentLength := length } = request := by rw [hzero, ← hlen]
    rw [hsame]
    exact .inr (.inl ⟨rfl, hisChunked, trivial, hdeclared.trans hzero⟩)
  next hne =>
  rw [hdeclared]
  exact .inr (.inr (.inr ⟨rfl, hisChunked, trivial, hne⟩))

theorem feed_header (hparsed : request.headerParsed = false) (data : Bytes) :
    feed (react maxBodySize) request data =
      match feed (Http.react HttpRequestHeader.blockChar) request.header data with
      | .more header => .more (request.setHeader header)
      | .failed err => .failed err
      | .stopped header n =>
        match frame { request with header := header, headerParsed := true } maxBodySize with
        | .fail err _ => .failed err
        | .noBody request' => .stopped request' n
        | .body _ request' => (feed (react maxBodySize) request' (data.drop n)).shift n := by
  have hreact : ∀ header c, react maxBodySize (request.setHeader header) c =
      (Http.react HttpRequestHeader.blockChar header c).embed request.setHeader
        (fun header' =>
          reactFraming (frame { request with header := header', headerParsed := true } maxBodySize))
        id := by
    intro header c
    have hparsed' : (request.setHeader header).headerParsed = false := hparsed
    rw [react, if_pos hparsed']
    rfl
  refine (Lib.feed_phase hreact request.header data).trans ?_
  cases feed (Http.react HttpRequestHeader.blockChar) request.header data with
  | more header => rfl
  | failed err => rfl
  | stopped header n =>
  simp only
  cases frame { request with header := header, headerParsed := true } maxBodySize with
  | fail err request' => rfl
  | noBody request' => rfl
  | body isChunked request' => rfl

theorem Reports.shift {length : Nat} (h : Reports progress length (consumed + n) result) :
    Reports (progress.shift n) (n + length) consumed result := by
  cases progress with
  | more request =>
    obtain ⟨hrequest, rfl⟩ := h
    exact ⟨hrequest, by rw [Nat.add_assoc]⟩
  | failed err => exact h
  | stopped request m =>
  obtain ⟨hrequest, rfl⟩ := h
  exact ⟨hrequest, by rw [Nat.add_assoc]⟩

/-- A call is a run over the bytes it gets. -/
theorem fromIOVec_reports (h : request.InProgress) (iovecs : IoVecs) :
    Reports (feed (react maxBodySize) request iovecs.flatten) iovecs.flatten.length 0
      (request.fromIOVec iovecs maxBodySize) := by
  have hcall : request.headerParsed = true → request.fromIOVec iovecs maxBodySize =
      request.parseBody iovecs maxBodySize 0 request.header.isChunked := by
    intro hparsed
    rewrite [fromIOVec, if_pos hparsed]
    rfl
  cases h with
  | chunked hparsed hisChunked hph =>
    rw [hcall hparsed, hisChunked]
    exact parseBody_chunked hparsed hisChunked hph iovecs 0
  | plain hparsed hisChunked hbody =>
    rw [hcall hparsed, hisChunked]
    exact parseBody_plain hparsed hisChunked hbody iovecs 0
  | header hparsed hopen hph hlen hbody =>
  have hreports := HttpRequestHeader.fromIOVec_reports hopen iovecs
  rw [fromIOVec, if_neg (by rw [hparsed]; exact nofun), feed_header hparsed]
  cases hfeed : feed (Http.react HttpRequestHeader.blockChar) request.header iovecs.flatten with
  | more header =>
    rw [hfeed] at hreports
    obtain ⟨hhdr, hres⟩ := hreports
    rw [hres]
    refine ⟨.header hparsed hhdr hph hlen hbody, ?_⟩
    rw [Nat.zero_add]
    rfl
  | failed err =>
    rw [hfeed] at hreports
    obtain ⟨header, -, hres⟩ := hreports
    have hcode := code_of_failed hfeed
    rw [hres]
    refine ⟨hcode.1, ?_⟩
    obtain ⟨hok, hinc⟩ := hcode
    cases err <;> first | rfl | contradiction
  | stopped header n =>
  rw [hfeed] at hreports
  obtain ⟨-, hres⟩ := hreports
  have hn : n ≤ iovecs.flatten.length := (Lib.feed_take_of_stopped hfeed).1
  rw [hres]
  simp only
  have hcases := @frame_cases { request with header := header, headerParsed := true } hlen
    maxBodySize
  have hlen' : iovecs.flatten.length = n + (iovecs.flatten.drop n).length := by
    rw [length_drop]
    omega
  obtain ⟨err, request', hframe, hcode⟩ | ⟨hframe, hisChunked, -, -⟩ |
    ⟨hframe, hisChunked, -⟩ | ⟨hframe, hisChunked, -, hne⟩ := hcases
  · rw [hframe]
    exact ⟨hcode, rfl⟩
  · rw [hframe]
    have hle : request.contentLength ≤ request.bodyParsed := by omega
    refine ⟨?_, rfl⟩
    simp only [isComplete, hisChunked, decide_eq_true hle, Bool.not_false, Bool.and_self]
  · simp only [hframe, Nat.zero_add, Int.toNat_natCast]
    rw [hlen']
    refine Reports.shift ?_
    rw [Nat.zero_add]
    exact parseBody_chunked rfl hisChunked hph iovecs n
  simp only [hframe, Nat.zero_add, Int.toNat_natCast]
  rw [hlen']
  refine Reports.shift ?_
  rw [Nat.zero_add]
  have hlt : request.bodyParsed < declaredLength header := by
    rw [hbody]
    exact Nat.pos_of_ne_zero hne
  exact parseBody_plain (by rfl) (by exact hisChunked) hlt iovecs n

end HttpRequest

end Galay.Http
