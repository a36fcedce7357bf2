import Galay.Http.Chunk
import Galay.Lib.Feed

/-!
# The incremental chunk parser does not see how its input is cut

One byte at a time the parser is a machine (`react`); a block of data is as many steps as it has
bytes. A call is a run of this machine over the bytes of its array, a sequence of calls is one run.
-/

namespace Galay.Http

open List
open Lib (Reaction Progress feed)

namespace ChunkParser

variable {parser : ChunkParser} {body : Bytes}

/-! ## One byte -/

/-- A step that fails keeps the parser and the body as they are left. -/
def reactChar (body : Bytes) (step : ChunkParser × Option HttpError) :
    Reaction (ChunkParser × Bytes) (ChunkParser × Bytes × HttpError) :=
  match step with
  | (parser, some error) => .fail (parser, body, error)
  | (parser, none) => if parser.phase = .kDone then .stop (parser, body) else .next (parser, body)

def react (maxBodySize : Nat) (state : ChunkParser × Bytes) (c : UInt8) :
    Reaction (ChunkParser × Bytes) (ChunkParser × Bytes × HttpError) :=
  match state.1.phase with
  | .kSizeLine => reactChar state.2 (state.1.sizeLineChar state.2.length maxBodySize c)
  | .kData => .next ((state.1.dataBlock 1).2, state.2 ++ [c])
  | .kDataCrlf => reactChar state.2 (state.1.dataCrlfChar c)
  | .kLastTrailerLine => reactChar state.2 (state.1.lastTrailerLineChar c)
  | .kDone => .stop state

theorem dataBlock_fst (parser : ChunkParser) (n : Nat) :
    (parser.dataBlock n).1 = min (parser.currentChunkSize - parser.currentChunkRead) n := by
  unfold dataBlock
  simp only
  split <;> rfl

/-- What is left to read decides, not how much input there is beyond it. -/
theorem dataBlock_min (parser : ChunkParser) (n : Nat) :
    (parser.dataBlock (parser.dataBlock n).1).2 = (parser.dataBlock n).2 := by
  have hmin : min (parser.currentChunkSize - parser.currentChunkRead)
      (min (parser.currentChunkSize - parser.currentChunkRead) n) =
      min (parser.currentChunkSize - parser.currentChunkRead) n := by omega
  rw [dataBlock_fst]
  unfold dataBlock
  simp only [hmin]

theorem phase_dataBlock (hph : parser.phase = .kData)
    (hlt : parser.currentChunkRead + n < parser.currentChunkSize) :
    (parser.dataBlock n).2.phase = .kData ∧
      (parser.dataBlock n).2.currentChunkRead = parser.currentChunkRead + n ∧
      (parser.dataBlock n).2.currentChunkSize = parser.currentChunkSize ∧
      (parser.dataBlock n).2.lineBuffer = parser.lineBuffer ∧
      (parser.dataBlock n).2.pendingCr = parser.pendingCr := by
  have hmin : min (parser.currentChunkSize - parser.currentChunkRead) n = n := by omega
  have hne : ¬ parser.currentChunkRead + n = parser.currentChunkSize := by omega
  unfold dataBlock
  simp only [hmin, hne, dite_false, hph, and_self]

theorem dataBlock_add (hph : parser.phase = .kData)
    (hlt : parser.currentChunkRead + m < parser.currentChunkSize) :
    ((parser.dataBlock m).2.dataBlock n).2 = (parser.dataBlock (m + n)).2 := by
  obtain ⟨hp, hread, hsize, hline, hcr⟩ := phase_dataBlock hph hlt
  have hmin : min (parser.currentChunkSize - (parser.currentChunkRead + m)) n + m =
      min (parser.currentChunkSize - parser.currentChunkRead) (m + n) := by omega
  generalize hnext : (parser.dataBlock m).2 = next at hp hread hsize hline hcr ⊢
  unfold dataBlock
  simp only [hread, hsize]
  have hsum : parser.currentChunkRead + m +
      min (parser.currentChunkSize - (parser.currentChunkRead + m)) n =
      parser.currentChunkRead + min (parser.currentChunkSize - parser.currentChunkRead) (m + n) := by
    omega
  by_cases hfull : parser.currentChunkRead +
      min (parser.currentChunkSize - parser.currentChunkRead) (m + n) = parser.currentChunkSize
  · simp only [hsum, hfull, dite_true, hline]
  simp only [hsum, hfull, dite_false, hline, hp, hph, hcr]

theorem feed_data (hph : parser.phase = .kData) {block : Bytes} (hne : block ≠ [])
    (hle : block.length ≤ parser.currentChunkSize - parser.currentChunkRead) :
    feed (react maxBodySize) (parser, body) block =
      .more ((parser.dataBlock block.length).2, body ++ block) := by
  induction block generalizing parser body with
  | nil => exact absurd rfl hne
  | cons c block ih =>
  have hreact : react maxBodySize (parser, body) c =
      .next ((parser.dataBlock 1).2, body ++ [c]) := by
    unfold react
    rw [hph]
  rw [Lib.feed_next hreact]
  cases block with
  | nil => rfl
  | cons c' block =>
  have hlt : parser.currentChunkRead + 1 < parser.currentChunkSize := by
    simp only [length_cons] at hle
    omega
  obtain ⟨hp, hread, hsize, -, -⟩ := phase_dataBlock hph hlt
  rw [ih hp (cons_ne_nil _ _) (by
    rw [hread, hsize]
    simp only [length_cons] at hle ⊢
    omega)]
  rw [dataBlock_add hph hlt, append_assoc, singleton_append, length_cons (a := c), Nat.add_comm 1]
  rfl

/-! ## One call -/

/-- The outcome of a call that has read `consumed` bytes before. -/
def outcome (consumed length : Nat) :
    Progress (ChunkParser × Bytes) (ChunkParser × Bytes × HttpError) → ChunkOutcome
  | .more (parser, body) => ⟨parser, body, .ok (false, consumed + length)⟩
  | .stopped (parser, body) n => ⟨parser, body, .ok (true, consumed + n)⟩
  | .failed (parser, body, error) => ⟨parser, body, .error error⟩

theorem outcome_shift (consumed length n : Nat)
    (progress : Progress (ChunkParser × Bytes) (ChunkParser × Bytes × HttpError)) :
    outcome (consumed + n) length progress = outcome consumed (n + length) (progress.shift n) := by
  cases progress with
  | more state => simp only [outcome, Progress.shift_more, Nat.add_assoc]
  | stopped state k => simp only [outcome, Progress.shift_stopped, Nat.add_assoc]
  | failed error => rfl

theorem reactChar_next (h : reactChar body step = .next state) :
    step = (state.1, none) ∧ state.2 = body ∧ state.1.phase ≠ .kDone := by
  unfold reactChar at h
  split at h
  · cases h
  split at h
  · cases h
  next hne =>
  cases h
  exact ⟨rfl, rfl, hne⟩

theorem phase_dataBlock_ne_done (hph : parser.phase = .kData) (n : Nat) :
    (parser.dataBlock n).2.phase ≠ .kDone := by
  unfold dataBlock
  simp only
  split
  · rintro ⟨⟩
  rw [hph]
  rintro ⟨⟩

theorem react_next
    (hph : state.1.phase ≠ .kDone) (h : react maxBodySize state c = .next state') :
    state'.1.phase ≠ .kDone := by
  unfold react at h
  split at h
  · exact (reactChar_next h).2.2
  · next hdata =>
    cases h
    exact phase_dataBlock_ne_done hdata 1
  · exact (reactChar_next h).2.2
  · exact (reactChar_next h).2.2
  next hdone => exact absurd hdone hph

section
variable (hreact : react maxBodySize (parser, body) c = reactChar body step) (rest : Bytes)
include hreact

theorem feed_char_fail (hstep : step = (parser', some error)) :
    feed (react maxBodySize) (parser, body) (c :: rest) = .failed (parser', body, error) := by
  rw [hstep] at hreact
  exact Lib.feed_fail hreact rest

theorem feed_char_stop (hstep : step = (parser', none)) (hdone : parser'.phase = .kDone) :
    feed (react maxBodySize) (parser, body) (c :: rest) = .stopped (parser', body) 1 := by
  rw [hstep] at hreact
  exact Lib.feed_stop (hreact.trans (if_pos hdone)) rest

theorem feed_char_next (hstep : step = (parser', none)) (hmore : parser'.phase ≠ .kDone) :
    feed (react maxBodySize) (parser, body) (c :: rest) =
      (feed (react maxBodySize) (parser', body) rest).shift 1 := by
  rw [hstep] at hreact
  exact Lib.feed_next (hreact.trans (if_neg hmore)) rest

end

/-- Early return or not, as the loop over one `iovec` has it. -/
def iovOutcome (consumed length : Nat) :
    Progress (ChunkParser × Bytes) (ChunkParser × Bytes × HttpError) →
      Except ChunkOutcome (ChunkParser × Bytes × Nat)
  | .more (parser, body) => .ok (parser, body, consumed + length)
  | .stopped (parser, body) n => .error ⟨parser, body, .ok (true, consumed + n)⟩
  | .failed (parser, body, error) => .error ⟨parser, body, .error error⟩

theorem iovOutcome_shift (consumed length n : Nat)
    (progress : Progress (ChunkParser × Bytes) (ChunkParser × Bytes × HttpError)) :
    iovOutcome (consumed + n) length progress =
      iovOutcome consumed (n + length) (progress.shift n) := by
  cases progress with
  | more state => simp only [iovOutcome, Progress.shift_more, Nat.add_assoc]
  | stopped state k => simp only [iovOutcome, Progress.shift_stopped, Nat.add_assoc]
  | failed error => rfl

theorem sizeLineChar_ne_done (hph : parser.phase = .kSizeLine) {n : Nat} {c : UInt8} :
    (parser.sizeLineChar n maxBodySize c).1.phase ≠ .kDone := by
  unfold sizeLineChar
  split
  · simp only
    split
    · rw [hph]
      exact nofun
    split
    · rw [hph]
      exact nofun
    split
    · exact nofun
    split
    · rw [hph]
      exact nofun
    exact nofun
  split_ifs <;> rw [hph] <;> exact nofun

theorem dataCrlfChar_ne_done (hph : parser.phase = .kDataCrlf) {c : UInt8} :
    (parser.dataCrlfChar c).1.phase ≠ .kDone := by
  unfold dataCrlfChar
  simp only
  split_ifs <;> simp [hph]

theorem react_sizeLine (hph : parser.phase = .kSizeLine) (c : UInt8) :
    react maxBodySize (parser, body) c =
      reactChar body (parser.sizeLineChar body.length maxBodySize c) := by
  unfold react
  rw [hph]

theorem react_dataCrlf (hph : parser.phase = .kDataCrlf) (c : UInt8) :
    react maxBodySize (parser, body) c = reactChar body (parser.dataCrlfChar c) := by
  unfold react
  rw [hph]

theorem react_lastTrailerLine (hph : parser.phase = .kLastTrailerLine) (c : UInt8) :
    react maxBodySize (parser, body) c = reactChar body (parser.lastTrailerLineChar c) := by
  unfold react
  rw [hph]

theorem parseIov_eq (hph : parser.phase ≠ .kDone) (body : Bytes) (consumed : Nat)
    (data : Bytes) :
    parseIov maxBodySize parser body consumed data =
      iovOutcome consumed data.length (feed (react maxBodySize) (parser, body) data) := by
  induction hlen : data.length using Nat.strongRecOn generalizing parser body consumed data with
  | ind length ih =>
  subst hlen
  cases data with
  | nil =>
    rw [parseIov]
    rfl
  | cons c rest =>
  -- A character that does not end the call is followed by the rest of the `iovec`.
  have hchar : ∀ {parser' : ChunkParser} {step : ChunkParser × Option HttpError},
      react maxBodySize (parser, body) c = reactChar body step → step = (parser', none) →
      parser'.phase ≠ .kDone →
      parseIov maxBodySize parser' body (consumed + 1) rest =
        iovOutcome consumed (c :: rest).length
          (feed (react maxBodySize) (parser, body) (c :: rest)) := by
    intro parser' step hreact hstep hmore
    rw [ih rest.length (by simp) hmore body (consumed + 1) rest rfl,
      feed_char_next hreact rest hstep hmore, iovOutcome_shift, length_cons, Nat.add_comm 1]
  rw [parseIov]
  split
  · next hdone => exact absurd hdone hph
  · next hline =>
    split
    · next hstep =>
      rw [feed_char_fail (react_sizeLine hline c) rest hstep]
      rfl
    next parser' hstep =>
    refine hchar (react_sizeLine hline c) hstep ?_
    have hne := @sizeLineChar_ne_done parser maxBodySize hline body.length c
    rw [hstep] at hne
    exact hne
  · next hdata =>
    have hpos := dataBlock_pos hdata (n := (c :: rest).length) (by simp)
    have hmin := parser.dataBlock_min (c :: rest).length
    have hfst := parser.dataBlock_fst (c :: rest).length
    have hne := phase_dataBlock_ne_done hdata (c :: rest).length
    generalize hdata' : c :: rest = data at hpos hmin hfst hne ih ⊢
    generalize (parser.dataBlock data.length).1 = toRead at hpos hmin hfst ⊢
    have htake : (data.take toRead).length = toRead := by
      rw [length_take]
      omega
    have hblock : feed (react maxBodySize) (parser, body) (data.take toRead) =
        .more ((parser.dataBlock data.length).2, body ++ data.take toRead) := by
      rw [feed_data hdata (ne_nil_of_length_pos (by omega)) (by omega), htake, hmin]
    have hfeed : feed (react maxBodySize) (parser, body) data =
        (feed (react maxBodySize) ((parser.dataBlock data.length).2, body ++ data.take toRead)
          (data.drop toRead)).shift toRead := by
      conv_lhs => rw [← take_append_drop toRead data]
      rw [Lib.feed_append_of_more hblock, htake]
    have hlen : toRead + (data.drop toRead).length = data.length := by
      rw [length_drop]
      omega
    rw [ih (data.drop toRead).length (by omega) hne _ _ _ rfl, hfeed, iovOutcome_shift, hlen]
  · next hcrlf =>
    split
    · next hstep =>
      rw [feed_char_fail (react_dataCrlf hcrlf c) rest hstep]
      rfl
    next parser' hstep =>
    refine hchar (react_dataCrlf hcrlf c) hstep ?_
    have hne := @dataCrlfChar_ne_done parser hcrlf c
    rw [hstep] at hne
    exact hne
  next htrailer =>
  split
  · next hstep =>
    rw [feed_char_fail (react_lastTrailerLine htrailer c) rest hstep]
    rfl
  next parser' hstep =>
  split
  · next hdone =>
    rw [feed_char_stop (react_lastTrailerLine htrailer c) rest hstep hdone]
    rfl
  next hmore => exact hchar (react_lastTrailerLine htrailer c) hstep hmore

theorem parseIovs_eq (hph : parser.phase ≠ .kDone) (body : Bytes) (consumed : Nat)
    (iovecs : IoVecs) :
    parseIovs maxBodySize parser body consumed iovecs =
      outcome consumed iovecs.flatten.length
        (feed (react maxBodySize) (parser, body) iovecs.flatten) := by
  induction iovecs generalizing parser body consumed with
  | nil => simp [parseIovs, outcome, hph]
  | cons iov iovecs ih =>
  rw [parseIovs, parseIov_eq hph, flatten_cons, length_append]
  cases hfeed : feed (react maxBodySize) (parser, body) iov with
  | failed error => rw [Lib.feed_append_of_failed hfeed]; rfl
  | stopped state n => rw [Lib.feed_append_of_stopped hfeed]; rfl
  | more state =>
  have hmore : state.1.phase ≠ .kDone :=
    Lib.feed_more_invariant (P := fun state => state.1.phase ≠ .kDone) react_next hph hfeed
  rw [Lib.feed_append_of_more hfeed]
  simp only [iovOutcome]
  rw [ih hmore, outcome_shift]

theorem parse_of_done (hdone : parser.phase = .kDone) (iovecs : IoVecs) (body : Bytes) :
    parser.parse iovecs body maxBodySize = ⟨parser, body, .ok (true, 0)⟩ := by
  unfold parse
  induction iovecs with
  | nil => simp [parseIovs, hdone]
  | cons iov iovecs ih =>
  rw [parseIovs]
  cases iov with
  | nil =>
    rw [parseIov]
    exact ih
  | cons c rest =>
  have hiov : parseIov maxBodySize parser body 0 (c :: rest) =
      .error ⟨parser, body, .ok (true, 0)⟩ := by
    rw [parseIov]
    split
    · rfl
    all_goals
      next h =>
        rw [hdone] at h
        cases h
  rw [hiov]

/-! ## A sequence of calls -/

/-- Calls one after the other with the same parser and output string, their counts added up. An
error ends them. -/
def parseCalls (maxBodySize : Nat) (run : ChunkOutcome) : List IoVecs → ChunkOutcome
  | [] => run
  | iovecs :: calls =>
    match run.result with
    | .error _ => run
    | .ok (_, consumed) =>
      let next := run.parser.parse iovecs run.body maxBodySize
      parseCalls maxBodySize
        { next with result := next.result.map fun (done, n) => (done, consumed + n) } calls

/-- The state before the first call. -/
def start (parser : ChunkParser) (body : Bytes) : ChunkOutcome :=
  ⟨parser, body, .ok (parser.phase = .kDone, 0)⟩

theorem parseCalls_of_error (h : run.result = .error error) (calls : List IoVecs) :
    parseCalls maxBodySize run calls = run := by
  cases calls with
  | nil => rfl
  | cons iovecs calls => rw [parseCalls, h]

theorem parseCalls_of_done (hdone : parser.phase = .kDone) (body : Bytes) (consumed : Nat)
    (calls : List IoVecs) :
    parseCalls maxBodySize ⟨parser, body, .ok (true, consumed)⟩ calls =
      ⟨parser, body, .ok (true, consumed)⟩ := by
  induction calls with
  | nil => rfl
  | cons iovecs calls ih =>
  rw [parseCalls]
  simp only [parse_of_done hdone]
  exact ih

theorem react_stop
    (hph : state.1.phase ≠ .kDone) (h : react maxBodySize state c = .stop state') :
    state'.1.phase = .kDone ∧ state'.2 = state.2 := by
  have hchar : ∀ {body : Bytes} {step : ChunkParser × Option HttpError},
      reactChar body step = .stop state' → state'.1.phase = .kDone ∧ state'.2 = body := by
    intro body step hstep
    unfold reactChar at hstep
    split at hstep
    · cases hstep
    split at hstep
    · next hdone =>
      cases hstep
      exact ⟨hdone, rfl⟩
    cases hstep
  unfold react at h
  split at h
  · exact hchar h
  · cases h
  · exact hchar h
  · exact hchar h
  next hdone => exact absurd hdone hph

theorem parseCalls_of_more (hph : parser.phase ≠ .kDone) (body : Bytes) (consumed : Nat)
    (calls : List IoVecs) :
    parseCalls maxBodySize ⟨parser, body, .ok (false, consumed)⟩ calls =
      outcome consumed calls.flatten.flatten.length
        (feed (react maxBodySize) (parser, body) calls.flatten.flatten) := by
  induction calls generalizing parser body consumed with
  | nil => rfl
  | cons iovecs calls ih =>
  rw [parseCalls, flatten_cons, flatten_append, length_append]
  simp only [parse, parseIovs_eq hph]
  cases hfeed : feed (react maxBodySize) (parser, body) iovecs.flatten with
  | failed error =>
    rw [Lib.feed_append_of_failed hfeed]
    exact parseCalls_of_error rfl calls
  | stopped state n =>
    obtain ⟨front, c, back, before, -, -, -, hbefore, hstop⟩ :=
      Lib.feed_stopped_invariant (P := fun state => state.1.phase ≠ .kDone) react_next hph hfeed
    rw [Lib.feed_append_of_stopped hfeed]
    simp only [outcome, Nat.zero_add, Except.map]
    exact parseCalls_of_done (react_stop hbefore hstop).1 state.2 (consumed + n) calls
  | more state =>
  have hmore : state.1.phase ≠ .kDone :=
    Lib.feed_more_invariant (P := fun state => state.1.phase ≠ .kDone) react_next hph hfeed
  rw [Lib.feed_append_of_more hfeed, ← outcome_shift, ← ih hmore state.2]
  simp only [outcome, Nat.zero_add, Except.map]

/-- However the bytes are dealt out to calls and arrays, the outcome is that of one call on all of
them. -/
theorem parseCalls_eq (parser : ChunkParser) (body : Bytes) (calls : List IoVecs) :
    parseCalls maxBodySize (start parser body) calls =
      parser.parse [calls.flatten.flatten] body maxBodySize := by
  by_cases hdone : parser.phase = .kDone
  · have hstart : start parser body = ⟨parser, body, .ok (true, 0)⟩ := by simp [start, hdone]
    rw [hstart, parseCalls_of_done hdone, parse_of_done hdone]
  have hstart : start parser body = ⟨parser, body, .ok (false, 0)⟩ := by simp [start, hdone]
  rw [hstart, parseCalls_of_more hdone, parse, parseIovs_eq hdone, flatten_singleton]

/-! ## The limit of the body -/

/-- The bytes of the current chunk that are still to come. -/
def pending (parser : ChunkParser) : Nat :=
  if parser.phase = .kData then parser.currentChunkSize - parser.currentChunkRead else 0

/-- The body stays below the limit, with what the current chunk will add to it. -/
def Within (maxBodySize : Nat) (state : ChunkParser × Bytes) : Prop :=
  state.2.length + state.1.pending ≤ maxBodySize

theorem not_wouldExceedBodyLimit (hmax : maxBodySize ≠ 0)
    (h : ¬ wouldExceedBodyLimit bodySize appendSize maxBodySize = true) :
    bodySize + appendSize ≤ maxBodySize := by
  unfold wouldExceedBodyLimit at h
  rw [if_neg hmax] at h
  split at h
  · exact absurd rfl h
  simp only [decide_eq_true_eq] at h
  omega

theorem pending_sizeLineChar (hmax : maxBodySize ≠ 0) (hph : parser.phase = .kSizeLine)
    (hbody : body.length ≤ maxBodySize)
    (h : parser.sizeLineChar body.length maxBodySize c = (parser', none)) :
    body.length + parser'.pending ≤ maxBodySize := by
  have hquiet : ∀ {parser' : ChunkParser}, parser'.phase ≠ .kData →
      body.length + parser'.pending ≤ maxBodySize := by
    intro parser' hne
    rw [pending, if_neg hne, Nat.add_zero]
    exact hbody
  unfold sizeLineChar at h
  split at h
  · simp only at h
    split at h
    · cases h
    split at h
    · cases h
    split at h
    · cases h
      exact hquiet (by rintro ⟨⟩)
    split at h
    · cases h
    next hlimit =>
    cases h
    exact not_wouldExceedBodyLimit hmax hlimit
  have hline : parser.phase ≠ .kData := by
    rw [hph]
    rintro ⟨⟩
  split at h
  · cases h
    exact hquiet hline
  split at h
  · cases h
  split at h
  · cases h
  cases h
  exact hquiet hline

theorem pending_dataBlock (hph : parser.phase = .kData) :
    (parser.dataBlock 1).2.pending + 1 = parser.pending := by
  have hlt := parser.read_lt hph
  have hmin : min (parser.currentChunkSize - parser.currentChunkRead) 1 = 1 := by omega
  unfold dataBlock pending
  simp only [hmin, hph]
  split
  · simp only [reduceCtorEq, if_false, if_true]
    omega
  simp only [if_true]
  omega

theorem phase_dataCrlfChar (hph : parser.phase = .kDataCrlf)
    (h : parser.dataCrlfChar c = (parser', none)) : parser'.phase ≠ .kData := by
  unfold dataCrlfChar at h
  split_ifs at h <;> cases h <;> simp [hph]

theorem phase_lastTrailerLineChar (hph : parser.phase = .kLastTrailerLine)
    (h : parser.lastTrailerLineChar c = (parser', none)) : parser'.phase ≠ .kData := by
  unfold lastTrailerLineChar at h
  simp only at h
  split_ifs at h <;> cases h <;> simp [hph]

theorem react_within (hmax : maxBodySize ≠ 0)
    (hst : Within maxBodySize state) (h : react maxBodySize state c = .next state') :
    Within maxBodySize state' := by
  obtain ⟨parser, body⟩ := state
  obtain ⟨parser', body'⟩ := state'
  unfold Within at hst ⊢
  unfold react at h
  simp only at hst h ⊢
  have hquiet : body' = body → parser'.phase ≠ .kData →
      body'.length + parser'.pending ≤ maxBodySize := by
    intro hbody hph
    rw [hbody, pending, if_neg hph]
    omega
  split at h
  · next hph =>
    obtain ⟨hstep, hbody, -⟩ := reactChar_next h
    rw [show body' = body from hbody]
    exact pending_sizeLineChar hmax hph (by omega) hstep
  · next hph =>
    have hpend := pending_dataBlock hph
    cases h
    rw [length_append, length_singleton]
    omega
  · next hph =>
    obtain ⟨hstep, hbody, -⟩ := reactChar_next h
    exact hquiet hbody (phase_dataCrlfChar hph hstep)
  · next hph =>
    obtain ⟨hstep, hbody, -⟩ := reactChar_next h
    exact hquiet hbody (phase_lastTrailerLineChar hph hstep)
  cases h

theorem react_fail
    {failure : ChunkParser × Bytes × HttpError} (h : react maxBodySize state c = .fail failure) :
    failure.2.1 = state.2 := by
  have hchar : ∀ {body : Bytes} {step : ChunkParser × Option HttpError},
      reactChar body step = .fail failure → failure.2.1 = body := by
    intro body step hstep
    unfold reactChar at hstep
    split at hstep
    · cases hstep
      rfl
    split at hstep <;> cases hstep
  unfold react at h
  split at h
  · exact hchar h
  · cases h
  · exact hchar h
  · exact hchar h
  cases h

theorem length_body_le (hmax : maxBodySize ≠ 0) (hbody : body.length ≤ maxBodySize)
    (iovecs : IoVecs) : (parse {} iovecs body maxBodySize).body.length ≤ maxBodySize := by
  have hph : ({} : ChunkParser).phase ≠ .kDone := nofun
  have hstart : Within maxBodySize ({}, body) := hbody
  rw [parse, parseIovs_eq hph]
  cases hfeed : feed (react maxBodySize) ({}, body) iovecs.flatten with
  | more state =>
    have hwithin : Within maxBodySize state :=
      Lib.feed_more_invariant (react_within hmax) hstart hfeed
    exact Nat.le_trans (Nat.le_add_right _ _) hwithin
  | stopped state n =>
    have hboth : ∀ {state c state'}, (Within maxBodySize state ∧ state.1.phase ≠ .kDone) →
        react maxBodySize state c = .next state' →
        (Within maxBodySize state' ∧ state'.1.phase ≠ .kDone) :=
      fun h hreact => ⟨react_within hmax h.1 hreact, react_next h.2 hreact⟩
    obtain ⟨-, c, -, before, -, -, -, ⟨hwithin, hbefore⟩, hstop⟩ :=
      Lib.feed_stopped_invariant hboth ⟨hstart, hph⟩ hfeed
    rw [outcome, (react_stop hbefore hstop).2]
    exact Nat.le_trans (Nat.le_add_right _ _) hwithin
  | failed failure =>
  obtain ⟨before, c, hwithin, hfail⟩ :=
    Lib.feed_failed_invariant (react_within hmax) hstart hfeed
  rw [outcome, react_fail hfail]
  exact Nat.le_trans (Nat.le_add_right _ _) hwithin

end ChunkParser

end Galay.Http
