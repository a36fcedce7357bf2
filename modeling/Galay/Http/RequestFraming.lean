import Galay.Http.RequestSplit

/-!
# Framing of requests

A connection gives a request the bytes that it has not consumed together with those that have just
arrived, until it is complete or fails.
-/

namespace Galay.Http

open List
open Lib (Progress feed)

/-- Bytes that arrive together, and how the window they end up in is cut. -/
structure Arrival where
  bytes : Bytes
  cut : Bytes → IoVecs
  flatten_cut : ∀ window, (cut window).flatten = window

namespace HttpRequest

/-- What has become of a stream. A complete request leaves `rest`, which it has not consumed or
which is still to arrive. -/
inductive Outcome
  | complete (request : HttpRequest) (consumed : Nat) (rest : Bytes)
  | error (err : HttpErrorCode)
  | incomplete

/-- The bytes that arrive, all in a row. -/
def streamOf (arrivals : List Arrival) : Bytes := (arrivals.map Arrival.bytes).flatten

/-- The calls of a connection; `unread` has not been consumed by those before, `total` has. -/
def receive (maxBodySize : Nat) (request : HttpRequest) (unread : Bytes) (total : Nat) :
    List Arrival → Outcome
  | [] => .incomplete
  | arrival :: arrivals =>
    let window := unread ++ arrival.bytes
    match request.fromIOVec (arrival.cut window) maxBodySize with
    | ((.kNoError, consumed), request) =>
      let unread := window.drop consumed.toNat
      if request.isComplete then
        .complete request (total + consumed.toNat) (unread ++ streamOf arrivals)
      else receive maxBodySize request unread (total + consumed.toNat) arrivals
    | ((err, _), _) => .error err

/-- The outcome of one call on a whole stream. -/
def outcomeOf (stream : Bytes) : (HttpErrorCode × Int) × HttpRequest → Outcome
  | ((.kNoError, consumed), request) =>
    if request.isComplete then .complete request consumed.toNat (stream.drop consumed.toNat)
    else .incomplete
  | ((err, _), _) => .error err

/-- The outcome of a run that has consumed `total` bytes before. -/
def runOutcome (total : Nat) (stream : Bytes) : Progress HttpRequest HttpErrorCode → Outcome
  | .more _ => .incomplete
  | .stopped request n => .complete request (total + n) (stream.drop n)
  | .failed err => .error err

theorem outcomeOf_reports (h : Reports progress stream.length 0 result) :
    outcomeOf stream result = runOutcome 0 stream progress := by
  cases progress with
  | more request =>
    obtain ⟨hprogress, rfl⟩ := h
    simp only [outcomeOf, hprogress.isComplete, Bool.false_eq_true, if_false, runOutcome]
  | stopped request n =>
    obtain ⟨hcompl, rfl⟩ := h
    simp only [outcomeOf, hcompl, if_true, runOutcome, Nat.zero_add, Int.toNat_natCast]
  | failed err =>
  obtain ⟨⟨code, consumed⟩, request⟩ := result
  obtain ⟨hcode, hres⟩ := h
  cases hres
  cases err <;> first | rfl | contradiction

/-- Calls that leave a request in progress consume what they get, so that the runs follow one
another. -/
theorem receive_eq (h : request.InProgress) (total : Nat) (arrivals : List Arrival) :
    receive maxBodySize request [] total arrivals =
      runOutcome total (streamOf arrivals) (feed (react maxBodySize) request (streamOf arrivals)) := by
  induction arrivals generalizing request total with
  | nil => rfl
  | cons arrival arrivals ih =>
  have hreports : Reports (feed (react maxBodySize) request (arrival.cut arrival.bytes).flatten)
      (arrival.cut arrival.bytes).flatten.length 0
      (request.fromIOVec (arrival.cut arrival.bytes) maxBodySize) := fromIOVec_reports h _
  have hstream : streamOf (arrival :: arrivals) = arrival.bytes ++ streamOf arrivals := rfl
  rw [arrival.flatten_cut] at hreports
  rw [receive, nil_append, hstream]
  simp only
  cases hfeed : feed (react maxBodySize) request arrival.bytes with
  | more request' =>
    rw [hfeed] at hreports
    obtain ⟨hprogress, hres⟩ := hreports
    rw [hres, Lib.feed_append_of_more hfeed]
    simp only [hprogress.isComplete, Bool.false_eq_true, if_false, Nat.zero_add,
      Int.toNat_natCast, drop_length]
    rw [ih hprogress]
    cases feed (react maxBodySize) request' (streamOf arrivals) with
    | more final => rfl
    | failed err => rfl
    | stopped final n =>
    simp only [runOutcome, Progress.shift_stopped, Nat.add_assoc, drop_length_add_append]
  | stopped request' n =>
    rw [hfeed] at hreports
    obtain ⟨hcompl, hres⟩ := hreports
    have hn := (Lib.feed_take_of_stopped hfeed).1
    rw [hres, Lib.feed_append_of_stopped hfeed]
    simp only [hcompl, if_true, Nat.zero_add, Int.toNat_natCast, runOutcome,
      drop_append, Nat.sub_eq_zero_of_le hn, drop_zero]
  | failed err =>
  rw [hfeed] at hreports
  obtain ⟨hcode, hres⟩ := hreports
  rw [Lib.feed_append_of_failed hfeed]
  generalize request.fromIOVec (arrival.cut arrival.bytes) maxBodySize = result at hres ⊢
  obtain ⟨⟨code, consumed⟩, request'⟩ := result
  cases hres
  cases err <;> first | rfl | contradiction

/-! ## Header and body of a complete request -/

/-- The bytes of a request: those on which its header parser is done, and those of the body that the
header declares. -/
structure Framed (header : HttpRequestHeader) (maxBodySize : Nat) (headerBytes bodyBytes : Bytes)
    (request : HttpRequest) (parsed : HttpRequestHeader) : Prop where
  header_eq : header.fromIOVec [headerBytes] =
    ((HttpErrorCode.kNoError, (headerBytes.length : Int)), parsed)
  plain : parsed.headerPairs.getValuePtr (ascii "transfer-encoding") = none →
    bodyBytes.length = declaredLength parsed ∧ request.body = bodyBytes ∧ request.header = parsed
  chunked : parsed.headerPairs.getValuePtr (ascii "transfer-encoding") ≠ none →
    (ChunkParser.parse {} [bodyBytes] [] maxBodySize).result = .ok (true, bodyBytes.length) ∧
      (ChunkParser.parse {} [bodyBytes] [] maxBodySize).body = request.body ∧
      request.header.method = parsed.method ∧ request.header.uri = parsed.uri ∧
      request.header.version = parsed.version

theorem framed_of_stopped {header : HttpRequestHeader} (hopen : header.parseState ≠ .Done)
    {stream : Bytes}
    (hfeed : feed (react maxBodySize) { header := header } stream = .stopped request' n) :
    ∃ headerBytes bodyBytes parsed, stream = headerBytes ++ bodyBytes ++ stream.drop n ∧
      n = headerBytes.length + bodyBytes.length ∧
      Framed header maxBodySize headerBytes bodyBytes request' parsed := by
  rw [feed_header rfl] at hfeed
  simp only at hfeed
  cases hhdr : feed (Http.react HttpRequestHeader.blockChar) header stream with
  | more parsed => simp [hhdr] at hfeed
  | failed err => simp [hhdr] at hfeed
  | stopped parsed m =>
  simp only [hhdr] at hfeed
  obtain ⟨hm, htake⟩ := Lib.feed_take_of_stopped hhdr
  have hlen : (stream.take m).length = m := by
    rw [length_take]
    omega
  have hparsed : header.fromIOVec [stream.take m] =
      ((HttpErrorCode.kNoError, ((stream.take m).length : Int)), parsed) := by
    have hreports := HttpRequestHeader.fromIOVec_reports hopen [stream.take m]
    rw [flatten_singleton, htake] at hreports
    rw [hreports.2, hlen, Nat.zero_add]
  have hsplit : ∀ k, stream =
      stream.take m ++ (stream.drop m).take k ++ stream.drop (m + k) := by
    intro k
    rw [append_assoc, ← drop_drop, take_append_drop, take_append_drop]
  obtain ⟨err, request'', hframe, -⟩ | ⟨hframe, -, hte, hdeclared⟩ | ⟨hframe, hisChunked, hte⟩ |
    ⟨hframe, hisChunked, hte, hne⟩ :=
    @frame_cases { header := parsed, headerParsed := true } rfl maxBodySize
  · rw [hframe] at hfeed
    cases hfeed
  · rw [hframe] at hfeed
    simp only [Progress.stopped.injEq] at hfeed
    obtain ⟨rfl, rfl⟩ := hfeed
    refine ⟨stream.take m, [], parsed, ?_, hlen.symm, hparsed, fun _ => ?_, fun h => ?_⟩
    · rw [append_nil, take_append_drop]
    · exact ⟨hdeclared.symm, rfl, rfl⟩
    exact absurd hte h
  · rw [hframe] at hfeed
    simp only at hfeed
    rw [feed_chunked rfl hisChunked] at hfeed
    cases hchunk : feed (ChunkParser.react maxBodySize) ({}, []) (stream.drop m) with
    | more state => simp [hchunk] at hfeed
    | failed failure => simp [hchunk] at hfeed
    | stopped state k =>
    simp only [hchunk, Progress.shift_stopped, Progress.stopped.injEq] at hfeed
    obtain ⟨rfl, rfl⟩ := hfeed
    obtain ⟨hk, hchunk'⟩ := Lib.feed_take_of_stopped hchunk
    have hlen' : ((stream.drop m).take k).length = k := by
      rw [length_take]
      omega
    have hph : ({} : ChunkParser).phase ≠ .kDone := by rintro ⟨⟩
    have hparse : ChunkParser.parse {} [(stream.drop m).take k] [] maxBodySize =
        ⟨state.1, state.2, .ok (true, k)⟩ := by
      rw [ChunkParser.parse, ChunkParser.parseIovs_eq hph, flatten_singleton, hchunk',
        ChunkParser.outcome, Nat.zero_add]
    refine ⟨stream.take m, (stream.drop m).take k, parsed, hsplit k, ?_, hparsed,
      fun h => absurd h hte, fun _ => ?_⟩
    · rw [hlen, hlen']
    rw [hparse, hlen']
    exact ⟨rfl, rfl, rfl, rfl, rfl⟩
  rw [hframe] at hfeed
  simp only at hfeed
  rw [feed_plain rfl (by exact hisChunked) (Nat.pos_of_ne_zero hne)] at hfeed
  simp only [Nat.sub_zero] at hfeed
  by_cases hmore : (stream.drop m).length < declaredLength parsed
  · rw [if_pos hmore] at hfeed
    cases hfeed
  rw [if_neg hmore, Progress.shift_stopped] at hfeed
  cases hfeed
  have hlen' : ((stream.drop m).take (declaredLength parsed)).length =
      declaredLength parsed := by
    rw [length_take]
    omega
  refine ⟨stream.take m, (stream.drop m).take (declaredLength parsed), parsed,
    hsplit _, ?_, hparsed, fun _ => ⟨hlen', rfl, rfl⟩, fun h => absurd hte h⟩
  rw [hlen, hlen']

/-- However the bytes of a stream arrive, the outcome is that of one call on all of them: the same
complete request, the same error, or none yet. A complete request has consumed its header and the
body that this declares, and nothing behind them. -/
theorem request_framing (header : HttpRequestHeader) (hopen : header.parseState ≠ .Done)
    (maxBodySize : Nat) (arrivals : List Arrival) :
    let request : HttpRequest := { header := header }
    let stream := streamOf arrivals
    receive maxBodySize request [] 0 arrivals =
        outcomeOf stream (request.fromIOVec [stream] maxBodySize) ∧
      ∀ request' consumed rest,
        receive maxBodySize request [] 0 arrivals = .complete request' consumed rest →
        ∃ headerBytes bodyBytes parsed, stream = headerBytes ++ bodyBytes ++ rest ∧
          consumed = headerBytes.length + bodyBytes.length ∧
          Framed header maxBodySize headerBytes bodyBytes request' parsed := by
  intro request stream
  have hprogress : request.InProgress := .header rfl hopen nofun rfl rfl
  have hreceive : receive maxBodySize request [] 0 arrivals =
      runOutcome 0 stream (feed (react maxBodySize) request stream) :=
    receive_eq hprogress 0 arrivals
  constructor
  · have hreports : Reports (feed (react maxBodySize) request [stream].flatten)
        [stream].flatten.length 0 (request.fromIOVec [stream] maxBodySize) :=
      fromIOVec_reports hprogress [stream]
    rw [flatten_singleton] at hreports
    rw [hreceive, outcomeOf_reports hreports]
  intro request' consumed rest h
  rw [hreceive] at h
  cases hfeed : feed (react maxBodySize) request stream with
  | more final => simp [hfeed, runOutcome] at h
  | failed err => simp [hfeed, runOutcome] at h
  | stopped final n =>
    simp only [hfeed, runOutcome, Nat.zero_add, Outcome.complete.injEq] at h
    obtain ⟨rfl, rfl, rfl⟩ := h
    exact framed_of_stopped hopen hfeed

/-- A request with a body and the beginning of the next one behind it, in three parts. -/
theorem request_framing_three_parts :
    let request : HttpRequest := {}
    let arrivals : List Arrival :=
      [⟨ascii "POST /a HT", fun window => [window], fun _ => flatten_singleton⟩,
        ⟨ascii "TP/1.1\r\nContent-Length: 3\r\n\r\na", fun window => [window.take 4, window.drop 4],
          fun window => by simp⟩,
        ⟨ascii "bcGET", fun window => [window], fun _ => flatten_singleton⟩]
    receive 0 request [] 0 arrivals =
      outcomeOf (streamOf arrivals) (request.fromIOVec [streamOf arrivals] 0) :=
  (request_framing {} (by decide) 0 _).1

end HttpRequest

end Galay.Http
