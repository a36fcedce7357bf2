import Galay.Http.ChunkSplit

/-!
# The two chunk decoders

What the incremental parser accepts is a sequence of chunks on the wire (`Wire`). The stateless
decoder reads the same chunks from growing prefixes, as long as no prefix ends inside a chunk that
is not the first one of its call: the size line of such a chunk is reported as consumed although
the chunk is not.
-/

namespace Galay.Http

open List
open Lib (Progress feed)

/-- A size line that gives `size`, without its CRLF. -/
structure ValidLine (line : Bytes) (size : Nat) : Prop where
  no_cr : CR ∉ line
  no_lf : LF ∉ line
  parse : parseChunkSizeLine line = .ok size

/-- Bytes that begin with a chunked body, the body and its length on the wire. -/
inductive Wire : Bytes → Bytes → Nat → Prop
  | last {line : Bytes} (rest : Bytes) : ValidLine line 0 →
    Wire (line ++ CR :: LF :: CR :: LF :: rest) [] (line.length + 4)
  | chunk {line data rest body : Bytes} {n : Nat} : ValidLine line data.length → data ≠ [] →
    Wire rest body n →
    Wire (line ++ CR :: LF :: (data ++ CR :: LF :: rest)) (data ++ body)
      (line.length + data.length + 4 + n)

/-- A chunk of a chunked body: where it begins, where its size line ends and where it ends. -/
inductive ChunkAt : Bytes → Nat → Nat → Nat → Prop
  | last {line : Bytes} (rest : Bytes) : ValidLine line 0 →
    ChunkAt (line ++ CR :: LF :: CR :: LF :: rest) 0 (line.length + 2) (line.length + 4)
  | head {line data : Bytes} (rest : Bytes) : ValidLine line data.length → data ≠ [] →
    ChunkAt (line ++ CR :: LF :: (data ++ CR :: LF :: rest)) 0 (line.length + 2)
      (line.length + data.length + 4)
  | later {line data rest : Bytes} {first lineEnd last : Nat} : ValidLine line data.length →
    data ≠ [] → ChunkAt rest first lineEnd last →
    ChunkAt (line ++ CR :: LF :: (data ++ CR :: LF :: rest))
      (line.length + data.length + 4 + first) (line.length + data.length + 4 + lineEnd)
      (line.length + data.length + 4 + last)

theorem ChunkAt.bounds {last : Nat}
    (h : ChunkAt bytes first lineEnd last) : first + 2 ≤ lineEnd ∧ last ≤ bytes.length := by
  induction h with
  | last rest hline =>
    simp only [length_append, length_cons]
    omega
  | head rest hline hdata =>
    simp only [length_append, length_cons]
    omega
  | later hline hdata hrest ih =>
  simp only [length_append, length_cons]
  omega

/-! ## What the incremental parser accepts -/

namespace ChunkParser

variable {parser : ChunkParser} {body : Bytes}

theorem sizeLine_read_lt : ChunkPhase.kSizeLine = .kData → 0 < 0 := by rintro ⟨⟩

/-- A parser that reads a size line, with the part it has. -/
def atLine (buffer : Bytes) : ChunkParser := { lineBuffer := buffer, read_lt := sizeLine_read_lt }

/-- The parser after the CR of a size line. -/
def afterCr (buffer : Bytes) : ChunkParser :=
  { lineBuffer := buffer, pendingCr := true, read_lt := sizeLine_read_lt }

variable {state : ChunkParser × Bytes} {n : Nat}

theorem feed_sizeLine {bytes : Bytes}
    (h : feed (react maxBodySize) (atLine buffer, body) bytes = .stopped state n) :
    ∃ line rest parser', bytes = line ++ CR :: LF :: rest ∧ CR ∉ line ∧ LF ∉ line ∧
      (afterCr (buffer ++ line)).sizeLineChar body.length maxBodySize LF = (parser', none) ∧
      (feed (react maxBodySize) (parser', body) rest).shift (line.length + 2) =
        .stopped state n := by
  induction bytes generalizing buffer n with
  | nil => cases h
  | cons c bytes ih =>
  have hreact : react maxBodySize (atLine buffer, body) c =
      reactChar body ((atLine buffer).sizeLineChar body.length maxBodySize c) :=
    react_sizeLine rfl c
  by_cases hcr : c = CR
  · subst hcr
    have hstep : (atLine buffer).sizeLineChar body.length maxBodySize CR =
        (afterCr buffer, none) := rfl
    rw [feed_char_next hreact bytes hstep (by rintro ⟨⟩)] at h
    cases bytes with
    | nil => cases h
    | cons c' rest =>
    have hreact' : react maxBodySize (afterCr buffer, body) c' =
        reactChar body ((afterCr buffer).sizeLineChar body.length maxBodySize c') :=
      react_sizeLine rfl c'
    by_cases hlf : c' = LF
    · subst hlf
      have hne : ((afterCr buffer).sizeLineChar body.length maxBodySize LF).1.phase ≠ .kDone :=
        sizeLineChar_ne_done rfl
      generalize hnext : (afterCr buffer).sizeLineChar body.length maxBodySize LF = next
        at hreact' hne
      obtain ⟨parser', error⟩ := next
      cases error with
      | some error =>
        rw [feed_char_fail hreact' rest rfl] at h
        cases h
      | none =>
      rw [feed_char_next hreact' rest rfl hne, Progress.shift_shift] at h
      refine ⟨[], rest, parser', rfl, not_mem_nil, not_mem_nil, ?_, h⟩
      rw [append_nil]
      exact hnext
    have hfail : (afterCr buffer).sizeLineChar body.length maxBodySize c' =
        (atLine buffer, some { code := .kInvalidChunkFormat }) := by
      unfold sizeLineChar
      exact (if_pos rfl).trans (if_pos (bne_iff_ne.2 hlf))
    rw [feed_char_fail hreact' rest hfail] at h
    cases h
  by_cases hlf : c = LF
  · subst hlf
    have hfail : (atLine buffer).sizeLineChar body.length maxBodySize LF =
        (atLine buffer, some { code := .kInvalidChunkFormat }) := rfl
    rw [feed_char_fail hreact bytes hfail] at h
    cases h
  by_cases hlong : kMaxChunkLineSize ≤ buffer.length
  · have hfail : (atLine buffer).sizeLineChar body.length maxBodySize c =
        (atLine buffer, some { code := .kInvalidChunkLength }) := by
      simp [sizeLineChar, atLine, hcr, hlf, hlong]
    rw [feed_char_fail hreact bytes hfail] at h
    cases h
  have hstep : (atLine buffer).sizeLineChar body.length maxBodySize c =
      (atLine (buffer ++ [c]), none) := by
    simp [sizeLineChar, atLine, hcr, hlf, hlong]
  rw [feed_char_next hreact bytes hstep (by rintro ⟨⟩)] at h
  obtain ⟨k, hrest, rfl⟩ := Progress.shift_eq_stopped h
  obtain ⟨line, rest, parser', rfl, hnocr, hnolf, hsize, hfeed⟩ := ih hrest
  refine ⟨c :: line, rest, parser', rfl, ?_, ?_, ?_, ?_⟩
  · exact mt List.mem_cons.1 (not_or.2 ⟨Ne.symm hcr, hnocr⟩)
  · exact mt List.mem_cons.1 (not_or.2 ⟨Ne.symm hlf, hnolf⟩)
  · rw [← hsize, append_assoc, singleton_append]
  rw [length_cons, show line.length + 1 + 2 = 1 + (line.length + 2) by omega,
    ← Progress.shift_shift, hfeed, Progress.shift_stopped]

/-- The end of a size line: the last chunk, or data to come. -/
theorem sizeLineChar_lf (h : (afterCr line).sizeLineChar n maxBodySize LF = (parser', none)) :
    ∃ size, parseChunkSizeLine line = .ok size ∧
      ((size = 0 ∧ parser' = { phase := .kLastTrailerLine }) ∨
        (parser'.phase = .kData ∧ parser'.currentChunkSize = size ∧
          parser'.currentChunkRead = 0 ∧ parser'.lineBuffer = [] ∧
          wouldExceedBodyLimit n size maxBodySize = false)) := by
  unfold sizeLineChar at h
  rw [if_pos (show (afterCr line).pendingCr = true from rfl)] at h
  simp only [bne_self_eq_false, Bool.false_eq_true, if_false] at h
  split at h
  · cases h
  next size hparse =>
  refine ⟨size, hparse, ?_⟩
  split at h
  · next hzero =>
    cases h
    exact .inl ⟨hzero, by subst hzero; rfl⟩
  split at h
  · cases h
  next hlimit =>
  cases h
  exact .inr ⟨rfl, rfl, rfl, rfl, by simpa using hlimit⟩

theorem feed_dataCrlf {bytes : Bytes} (hph : parser.phase = .kDataCrlf)
    (hcr : parser.pendingCr = false) (hline : parser.lineBuffer = [])
    (h : feed (react maxBodySize) (parser, body) bytes = .stopped state n) :
    ∃ rest, bytes = CR :: LF :: rest ∧
      (feed (react maxBodySize) (atLine [], body) rest).shift 2 = .stopped state n := by
  cases bytes with
  | nil => cases h
  | cons c bytes =>
  by_cases hc : c = CR
  · subst hc
    have hstep : parser.dataCrlfChar CR = ({ parser with pendingCr := true }, none) := by
      simp [dataCrlfChar, hcr]
    rw [feed_char_next (react_dataCrlf hph CR) bytes hstep (by simp [hph])] at h
    generalize hpend : { parser with pendingCr := true } = pending at h
    have hph' : pending.phase = .kDataCrlf := by rw [← hpend, ← hph]
    have hcr' : pending.pendingCr = true := by rw [← hpend]
    have hline' : pending.lineBuffer = [] := by rw [← hpend, ← hline]
    cases bytes with
    | nil => cases h
    | cons c' rest =>
    by_cases hc' : c' = LF
    · subst hc'
      have hstep' : pending.dataCrlfChar LF = (atLine [], none) := by
        simp [dataCrlfChar, hcr', hline', atLine]
      rw [feed_char_next (react_dataCrlf hph' LF) rest hstep' (by rintro ⟨⟩),
        Progress.shift_shift] at h
      exact ⟨rest, rfl, h⟩
    have hfail : pending.dataCrlfChar c' =
        ({ pending with pendingCr := false }, some { code := .kInvalidChunkFormat }) := by
      simp [dataCrlfChar, hcr', hc']
    rw [feed_char_fail (react_dataCrlf hph' c') rest hfail] at h
    cases h
  have hfail : parser.dataCrlfChar c =
      (parser, some { code := .kInvalidChunkFormat }) := by
    simp [dataCrlfChar, hcr, hc]
  rw [feed_char_fail (react_dataCrlf hph c) bytes hfail] at h
  cases h

theorem feed_chunkData {bytes : Bytes} (hph : parser.phase = .kData)
    (hread : parser.currentChunkRead = 0) (hline : parser.lineBuffer = [])
    (h : feed (react maxBodySize) (parser, body) bytes = .stopped state n) :
    ∃ data rest, bytes = data ++ CR :: LF :: rest ∧ data.length = parser.currentChunkSize ∧
      (feed (react maxBodySize) (atLine [], body ++ data) rest).shift (data.length + 2) =
        .stopped state n := by
  have hpos : 0 < parser.currentChunkSize := by
    have hlt := parser.read_lt hph
    omega
  by_cases hshort : bytes.length < parser.currentChunkSize
  · -- All the input is data.
    cases bytes with
    | nil => cases h
    | cons c bytes =>
    rw [feed_data hph (cons_ne_nil _ _) (by omega)] at h
    cases h
  have htake : (bytes.take parser.currentChunkSize).length = parser.currentChunkSize := by
    rw [length_take]
    omega
  refine ⟨bytes.take parser.currentChunkSize, ?_⟩
  have hdata : feed (react maxBodySize) (parser, body) (bytes.take parser.currentChunkSize) =
      .more ((parser.dataBlock parser.currentChunkSize).2,
        body ++ bytes.take parser.currentChunkSize) := by
    rw [feed_data hph (ne_nil_of_length_pos (by omega)) (by omega), htake]
  have hblock : (parser.dataBlock parser.currentChunkSize).2 =
      { currentChunkSize := parser.currentChunkSize
        currentChunkRead := parser.currentChunkSize
        phase := .kDataCrlf
        read_lt := by rintro ⟨⟩ } := by
    unfold dataBlock
    simp [hread, hline]
  rw [← take_append_drop parser.currentChunkSize bytes, Lib.feed_append_of_more hdata, hblock,
    htake] at h
  obtain ⟨k, hrest, rfl⟩ := Progress.shift_eq_stopped h
  obtain ⟨rest, hdrop, hfeed⟩ := feed_dataCrlf rfl rfl rfl hrest
  refine ⟨rest, ?_, htake, ?_⟩
  · rw [← hdrop, take_append_drop]
  rw [htake, ← Progress.shift_shift, hfeed, Progress.shift_stopped]

/-- A trailer line that is not empty is never accepted. -/
theorem lastTrailerLine_next (hst : state.1.phase = .kLastTrailerLine ∧ state.1.lineBuffer ≠ [])
    (h : react maxBodySize state c = .next state') :
    state'.1.phase = .kLastTrailerLine ∧ state'.1.lineBuffer ≠ [] := by
  obtain ⟨parser, body⟩ := state
  obtain ⟨hph, hline⟩ := hst
  rw [react_lastTrailerLine hph] at h
  unfold reactChar lastTrailerLineChar at h
  simp only at h hph hline
  split_ifs at h <;> simp_all <;> cases h <;> simp_all

theorem lastTrailerLine_stop
    (hst : state.1.phase = .kLastTrailerLine ∧ state.1.lineBuffer ≠ []) :
    react maxBodySize state c ≠ .stop state' := by
  obtain ⟨parser, body⟩ := state
  obtain ⟨hph, hline⟩ := hst
  rw [react_lastTrailerLine hph]
  intro h
  unfold reactChar lastTrailerLineChar at h
  simp only at h hph hline
  split_ifs at h <;> simp_all

theorem feed_lastTrailerLine {bytes : Bytes}
    (h : feed (react maxBodySize) ({ phase := .kLastTrailerLine }, body) bytes = .stopped state n) :
    ∃ rest, bytes = CR :: LF :: rest ∧ state.2 = body ∧ n = 2 := by
  have hreact : ∀ c, react maxBodySize (({ phase := .kLastTrailerLine } : ChunkParser), body) c =
      reactChar body (lastTrailerLineChar { phase := .kLastTrailerLine } c) :=
    fun c => react_lastTrailerLine rfl c
  cases bytes with
  | nil => cases h
  | cons c bytes =>
  by_cases hcr : c = CR
  · subst hcr
    have hstep : lastTrailerLineChar { phase := .kLastTrailerLine } CR =
        ({ phase := .kLastTrailerLine, pendingCr := true }, none) := rfl
    rw [feed_char_next (hreact CR) bytes hstep (by rintro ⟨⟩)] at h
    cases bytes with
    | nil => cases h
    | cons c' rest =>
    have hreact' : react maxBodySize
        (({ phase := .kLastTrailerLine, pendingCr := true } : ChunkParser), body) c' =
        reactChar body
          (lastTrailerLineChar { phase := .kLastTrailerLine, pendingCr := true } c') :=
      react_lastTrailerLine rfl c'
    by_cases hlf : c' = LF
    · subst hlf
      rw [feed_char_stop hreact' rest rfl rfl, Progress.shift_stopped, Progress.stopped.injEq] at h
      obtain ⟨rfl, rfl⟩ := h
      exact ⟨rest, rfl, rfl, rfl⟩
    have hfail : lastTrailerLineChar { phase := .kLastTrailerLine, pendingCr := true } c' =
        ({ phase := .kLastTrailerLine }, some { code := .kInvalidChunkFormat }) := by
      simp [lastTrailerLineChar, hlf]
    rw [feed_char_fail hreact' rest hfail] at h
    cases h
  by_cases hlf : c = LF
  · subst hlf
    have hfail : lastTrailerLineChar { phase := .kLastTrailerLine } LF =
        ({ phase := .kLastTrailerLine }, some { code := .kInvalidChunkFormat }) := rfl
    rw [feed_char_fail (hreact LF) bytes hfail] at h
    cases h
  -- The line is not empty from here on.
  have hstep : lastTrailerLineChar { phase := .kLastTrailerLine } c =
      ({ phase := .kLastTrailerLine, lineBuffer := [c] }, none) := by
    simp [lastTrailerLineChar, hcr, hlf, kMaxChunkLineSize]
  rw [feed_char_next (hreact c) bytes hstep (by rintro ⟨⟩)] at h
  obtain ⟨k, hrest, -⟩ := Progress.shift_eq_stopped h
  obtain ⟨-, last, -, before, -, -, -, hbefore, hstop⟩ :=
    Lib.feed_stopped_invariant
      (P := fun state => state.1.phase = .kLastTrailerLine ∧ state.1.lineBuffer ≠ [])
      lastTrailerLine_next ⟨rfl, cons_ne_nil _ _⟩ hrest
  exact absurd hstop (lastTrailerLine_stop hbefore)

theorem wire_of_feed {bytes : Bytes}
    (h : feed (react maxBodySize) (atLine [], body) bytes = .stopped state n) :
    ∃ body', Wire bytes body' n ∧ state.2 = body ++ body' := by
  induction hlength : bytes.length using Nat.strongRecOn generalizing bytes body n with
  | ind length ih =>
  obtain ⟨line, rest, parser', rfl, hnocr, hnolf, hsize, hfeed⟩ := feed_sizeLine h
  rw [nil_append] at hsize
  obtain ⟨size, hparse, ⟨rfl, rfl⟩ | ⟨hph, hchunk, hread, hline, -⟩⟩ := sizeLineChar_lf hsize
  · obtain ⟨k, hlast, rfl⟩ := Progress.shift_eq_stopped hfeed
    obtain ⟨rest', rfl, hbody, rfl⟩ := feed_lastTrailerLine hlast
    exact ⟨[], .last rest' ⟨hnocr, hnolf, hparse⟩, by rw [hbody, append_nil]⟩
  obtain ⟨k, hdata, rfl⟩ := Progress.shift_eq_stopped hfeed
  obtain ⟨data, rest', rfl, hlen, hfeed⟩ := feed_chunkData hph hread hline hdata
  obtain ⟨m, hnext, rfl⟩ := Progress.shift_eq_stopped hfeed
  obtain ⟨body', hwire, hbody⟩ := ih rest'.length (by
    rw [← hlength]
    simp only [length_append, length_cons]
    omega) hnext rfl
  rw [hchunk] at hlen
  have hne : data ≠ [] := by
    have hlt := parser'.read_lt hph
    exact ne_nil_of_length_pos (by omega)
  refine ⟨data ++ body', ?_, by rw [hbody, append_assoc]⟩
  rw [← hlen] at hparse
  rw [show line.length + 2 + (data.length + 2 + m) = line.length + data.length + 4 + m by omega]
  exact .chunk ⟨hnocr, hnolf, hparse⟩ hne hwire

/-- Where one call reports the end, the bytes begin with a chunked body of that length. -/
theorem wire_of_parse (h : (parse {} [bytes] [] maxBodySize).result = .ok (true, n)) :
    Wire bytes (parse {} [bytes] [] maxBodySize).body n := by
  have hph : ({} : ChunkParser).phase ≠ .kDone := nofun
  rw [parse, parseIovs_eq hph, flatten_singleton] at h ⊢
  cases hfeed : feed (react maxBodySize) ({}, []) bytes with
  | more state => rw [hfeed] at h; cases h
  | failed error => rw [hfeed] at h; cases h
  | stopped state k =>
  obtain ⟨body', hwire, hbody⟩ := wire_of_feed hfeed
  rw [hfeed] at h
  simp only [outcome, Nat.zero_add, Except.ok.injEq, Prod.mk.injEq, true_and] at h ⊢
  rw [hbody, nil_append, ← h]
  exact hwire

end ChunkParser

/-! ## The stateless decoder on a prefix -/

namespace Chunk

variable {simd : Bool} {iovecs iovecs' : IoVecs} {line : Bytes}

/-- A position: only what is left of the first `iovec` may be empty. -/
def TailNonempty (iovecs : IoVecs) : Prop := [] ∉ iovecs.tail

theorem skipBlocks_isPrefix (fuel : Nat) (segment : Bytes) :
    ∃ rest, segment = skipBlocks fuel segment ++ rest ∧ CR ∉ skipBlocks fuel segment := by
  induction fuel generalizing segment with
  | zero => exact ⟨segment, rfl, not_mem_nil⟩
  | succ fuel ih =>
  unfold skipBlocks
  split
  · next hblock =>
    obtain ⟨rest, hrest, hnocr⟩ := ih (segment.drop 16)
    refine ⟨rest, ?_, ?_⟩
    · rw [append_assoc, ← hrest, take_append_drop]
    rw [mem_append]
    exact not_or.2 ⟨hblock.2, hnocr⟩
  exact ⟨segment, rfl, not_mem_nil⟩

/-- Bytes without a CR before a line that ends with one belong to the line. -/
theorem append_eq_line {tail rest : Bytes} (hblock : CR ∉ block)
    (h : block ++ tail = line ++ CR :: rest) :
    ∃ line', line = block ++ line' ∧ tail = line' ++ CR :: rest := by
  rcases List.append_eq_append_iff.1 h with ⟨mid, hline, htail⟩ | ⟨mid, hmid, hrest⟩
  · exact ⟨mid, hline, htail⟩
  cases mid with
  | nil =>
    rw [append_nil] at hmid
    exact ⟨[], by rw [hmid, append_nil], hrest.symm⟩
  | cons c mid =>
  rw [cons_append, List.cons.injEq] at hrest
  refine absurd ?_ hblock
  rw [hmid, ← hrest.1]
  exact mem_append_right _ (mem_cons_self ..)

variable {following : IoVecs}

theorem head_of_flatten {rest : Bytes} (hne : [] ∉ following) (h : following.flatten = c :: rest) :
    ∃ segment tail, following = (c :: segment) :: tail ∧ rest = segment ++ tail.flatten := by
  cases following with
  | nil => cases h
  | cons segment tail =>
  cases segment with
  | nil => exact absurd (mem_cons_self ..) hne
  | cons c' segment =>
  rw [flatten_cons, cons_append, List.cons.injEq] at h
  exact ⟨segment, tail, by rw [h.1], h.2.symm⟩

theorem scanLine_cons (hnocr : CR ∉ c :: line) (hnolf : LF ∉ c :: line) (following : IoVecs)
    (buffer : Bytes) (consumed : Nat) (segment : Bytes) :
    scanLine following buffer consumed (c :: segment) =
      scanLine following (buffer ++ [c]) (consumed + 1) segment := by
  have hcr : ¬ (c == CR) = true := fun hc => hnocr (beq_iff_eq.1 hc ▸ mem_cons_self ..)
  have hlf : ¬ (c == LF) = true := fun hc => hnolf (beq_iff_eq.1 hc ▸ mem_cons_self ..)
  exact (if_neg hcr).trans (if_neg hlf)

theorem scanLine_line {segment rest : Bytes} (hne : [] ∉ following) (hnocr : CR ∉ line)
    (hnolf : LF ∉ line) (buffer : Bytes) (consumed : Nat)
    (h : segment ++ following.flatten = line ++ CR :: LF :: rest) :
    scanLine following buffer consumed segment =
        .found (buffer ++ line) (consumed + (line.length + 2)) ∨
      ∃ line', line = segment ++ line' ∧ following.flatten = line' ++ CR :: LF :: rest ∧
        scanLine following buffer consumed segment =
          .next (buffer ++ segment) (consumed + segment.length) := by
  induction segment generalizing line buffer consumed with
  | nil =>
    refine .inr ⟨line, rfl, h, ?_⟩
    rw [scanLine, append_nil, length_nil, Nat.add_zero]
  | cons c segment ih =>
  cases line with
  | nil =>
    rw [cons_append, nil_append, List.cons.injEq] at h
    obtain ⟨rfl, h⟩ := h
    refine .inl ?_
    rw [append_nil, length_nil, Nat.zero_add]
    cases segment with
    | nil =>
      rw [nil_append] at h
      obtain ⟨next, tail, rfl, -⟩ := head_of_flatten hne h
      rfl
    | cons c' segment =>
    rw [cons_append, List.cons.injEq] at h
    rw [h.1]
    rfl
  | cons c' line =>
  rw [cons_append, cons_append, List.cons.injEq] at h
  obtain ⟨rfl, h⟩ := h
  rw [scanLine_cons hnocr hnolf]
  rcases ih (fun hm => hnocr (mem_cons_of_mem _ hm))
      (fun hm => hnolf (mem_cons_of_mem _ hm)) (buffer ++ [c]) (consumed + 1) h with
    hfound | ⟨line', rfl, hrest, hnext⟩
  · refine .inl ?_
    rw [hfound, append_assoc, singleton_append, length_cons]
    congr 1
    omega
  refine .inr ⟨line', rfl, hrest, ?_⟩
  rw [hnext, append_assoc, singleton_append, length_cons]
  congr 1
  omega

/-- The first piece has a part that the vector loop skips, and no CR is in it. -/
theorem findCRLF_cons (simd : Bool) (segment : Bytes) (iovecs : IoVecs) :
    ∃ block tail, segment = block ++ tail ∧ CR ∉ block ∧ ∀ buffer consumed,
      findCRLF simd buffer consumed (segment :: iovecs) =
        match scanLine iovecs (buffer ++ block) (consumed + block.length) tail with
        | .found buffer consumed => some (buffer, consumed)
        | .notFound => none
        | .next buffer consumed => findCRLF simd buffer consumed iovecs := by
  obtain ⟨tail, htail, hblock⟩ : ∃ tail, segment =
      (if simd then skipBlocks segment.length segment else []) ++ tail ∧
      CR ∉ (if simd then skipBlocks segment.length segment else []) := by
    split
    · exact skipBlocks_isPrefix segment.length segment
    exact ⟨segment, rfl, not_mem_nil⟩
  refine ⟨_, tail, htail, hblock, fun buffer consumed => ?_⟩
  have hdrop := congrArg (drop (if simd then skipBlocks segment.length segment else []).length) htail
  rw [drop_left] at hdrop
  rw [findCRLF]
  simp only [hdrop] <;> rfl

theorem findCRLF_line {rest : Bytes} (hne : TailNonempty iovecs) (hnocr : CR ∉ line)
    (hnolf : LF ∉ line) (buffer : Bytes) (consumed : Nat)
    (h : iovecs.flatten = line ++ CR :: LF :: rest) :
    findCRLF simd buffer consumed iovecs =
      some (buffer ++ line, consumed + (line.length + 2)) := by
  induction iovecs generalizing line buffer consumed with
  | nil =>
    have hlen := congrArg List.length h
    simp at hlen
  | cons segment iovecs ih =>
  have hne' : [] ∉ iovecs := hne
  obtain ⟨block, tail, rfl, hblockcr, hfind⟩ := findCRLF_cons simd segment iovecs
  rw [hfind]
  rw [flatten_cons, append_assoc] at h
  obtain ⟨line', rfl, hline⟩ := append_eq_line hblockcr h
  have hnocr' : CR ∉ line' := fun hm => hnocr (mem_append_right _ hm)
  have hnolf' : LF ∉ line' := fun hm => hnolf (mem_append_right _ hm)
  rcases scanLine_line hne' hnocr' hnolf' (buffer ++ block) (consumed + block.length) hline with
    hfound | ⟨line'', rfl, hrest, hnext⟩
  · rw [hfound]
    simp only [append_assoc, length_append, Option.some.injEq, Prod.mk.injEq, true_and]
    omega
  rw [hnext]
  simp only
  rw [ih (fun hm => hne' (mem_of_mem_tail hm)) (fun hm => hnocr' (mem_append_right _ hm))
    (fun hm => hnolf' (mem_append_right _ hm)) _ _ hrest]
  simp only [append_assoc, length_append, Option.some.injEq, Prod.mk.injEq, true_and]
  omega

theorem scanLine_open {segment tail : Bytes} (hne : [] ∉ following) (hnocr : CR ∉ line)
    (hnolf : LF ∉ line) (htail : tail = [] ∨ tail = [CR]) (buffer : Bytes) (consumed : Nat)
    (h : segment ++ following.flatten = line ++ tail) :
    scanLine following buffer consumed segment = .notFound ∨
      ∃ line' buffer' consumed', CR ∉ line' ∧ LF ∉ line' ∧ following.flatten = line' ++ tail ∧
        scanLine following buffer consumed segment = .next buffer' consumed' := by
  induction segment generalizing line buffer consumed with
  | nil => exact .inr ⟨line, buffer, consumed, hnocr, hnolf, h, rfl⟩
  | cons c segment ih =>
  cases line with
  | nil =>
    rcases htail with rfl | rfl
    · cases h
    rw [cons_append, nil_append, List.cons.injEq, append_eq_nil_iff] at h
    obtain ⟨rfl, rfl, hnil⟩ := h
    cases following with
    | nil => exact .inl rfl
    | cons segment following =>
    rw [flatten_cons, append_eq_nil_iff] at hnil
    exact absurd (hnil.1 ▸ mem_cons_self ..) hne
  | cons c' line =>
  rw [cons_append, cons_append, List.cons.injEq] at h
  obtain ⟨rfl, h⟩ := h
  rw [scanLine_cons hnocr hnolf]
  exact ih (fun hm => hnocr (mem_cons_of_mem _ hm))
    (fun hm => hnolf (mem_cons_of_mem _ hm)) (buffer ++ [c]) (consumed + 1) h

/-- No line end is found in what is only a part of a line, or lacks its LF. -/
theorem findCRLF_open {tail : Bytes} (hne : TailNonempty iovecs) (hnocr : CR ∉ line)
    (hnolf : LF ∉ line) (htail : tail = [] ∨ tail = [CR]) (buffer : Bytes) (consumed : Nat)
    (h : iovecs.flatten = line ++ tail) : findCRLF simd buffer consumed iovecs = none := by
  induction iovecs generalizing line buffer consumed with
  | nil => rfl
  | cons segment iovecs ih =>
  have hne' : [] ∉ iovecs := hne
  obtain ⟨block, rest, rfl, hblockcr, hfind⟩ := findCRLF_cons simd segment iovecs
  rw [hfind]
  rw [flatten_cons, append_assoc] at h
  obtain ⟨line', rfl, hline⟩ : ∃ line', line = block ++ line' ∧
      rest ++ iovecs.flatten = line' ++ tail := by
    rcases htail with rfl | rfl
    · rw [append_nil] at h
      exact ⟨_, h.symm, by rw [append_nil]⟩
    exact append_eq_line hblockcr h
  rcases scanLine_open hne' (fun hm => hnocr (mem_append_right _ hm))
      (fun hm => hnolf (mem_append_right _ hm)) htail (buffer ++ block)
      (consumed + block.length) hline with
    hnone | ⟨line'', buffer', consumed', hnocr', hnolf', hflat, hnext⟩
  · rw [hnone]
  rw [hnext]
  exact ih (fun hm => hne' (mem_of_mem_tail hm)) hnocr' hnolf' buffer' consumed' hflat

theorem tailNonempty_advance (hne : TailNonempty iovecs) (remaining : Nat) :
    TailNonempty (advance remaining iovecs) ∧
      (0 < remaining → [] ∉ advance remaining iovecs) := by
  induction iovecs generalizing remaining with
  | nil => exact ⟨not_mem_nil, fun _ => not_mem_nil⟩
  | cons segment iovecs ih =>
  have hne' : [] ∉ iovecs := hne
  unfold advance
  split
  · next hzero => exact ⟨hne, fun hpos => absurd hpos (by omega)⟩
  split
  · next hle =>
    have hnext := ih (fun hm => hne' (mem_of_mem_tail hm)) (remaining - segment.length)
    refine ⟨hnext.1, fun _ => ?_⟩
    by_cases hrest : 0 < remaining - segment.length
    · exact hnext.2 hrest
    have hzero : remaining - segment.length = 0 := by omega
    rw [hzero]
    unfold advance
    split
    · exact not_mem_nil
    rw [if_pos rfl]
    exact hne'
  next hlt =>
  have hdrop : segment.drop remaining ≠ [] := by
    rw [ne_eq, drop_eq_nil_iff]
    exact hlt
  refine ⟨hne', fun _ => mt List.mem_cons.1 (not_or.2 ⟨Ne.symm hdrop, hne'⟩)⟩

theorem dataCrlf_eq {rest : Bytes} (hne : [] ∉ iovecs) (h : iovecs.flatten = CR :: LF :: rest) :
    ∃ iovecs', dataCrlf iovecs = some iovecs' ∧ iovecs'.flatten = rest ∧
      TailNonempty iovecs' := by
  obtain ⟨segment, tail, rfl, hrest⟩ := head_of_flatten hne h
  have htail : [] ∉ tail := (not_or.1 (mt List.mem_cons.2 hne)).2
  cases segment with
  | nil =>
    obtain ⟨next, tail, rfl, rfl⟩ := head_of_flatten htail hrest.symm
    exact ⟨next :: tail, rfl, rfl, (not_or.1 (mt List.mem_cons.2 htail)).2⟩
  | cons c segment =>
  rw [cons_append, List.cons.injEq] at hrest
  obtain ⟨rfl, rfl⟩ := hrest
  exact ⟨segment :: tail, rfl, rfl, htail⟩

/-! ## One call -/

section
variable {bytes tail chunkData : Bytes} {size m total : Nat} {hasParsedChunk : Bool}

/-- What the decoder returns when bytes are missing. -/
def incomplete (hasParsedChunk : Bool) (chunkData : Bytes) (total : Nat) :
    Except HttpError (Bool × Nat) × Bytes :=
  if hasParsedChunk then (.ok (false, total), chunkData)
  else (.error { code := .kIncomplete }, chunkData)

section

variable (hne : TailNonempty iovecs)
include hne

omit hne in
theorem take_crlf (tail : Bytes) (hm : m < 2) :
    (CR :: LF :: tail).take m = [] ∨ (CR :: LF :: tail).take m = [CR] := by
  match m, hm with
  | 0, _ => exact .inl rfl
  | 1, _ => exact .inr rfl

theorem loop_short (hline : ValidLine line size)
    (hflat : iovecs.flatten = (line ++ CR :: LF :: tail).take m) (hm : m < line.length + 2) :
    fromIOVecLoop simd iovecs chunkData total hasParsedChunk =
      incomplete hasParsedChunk chunkData total := by
  have hnone : findCRLF simd [] 0 iovecs = none := by
    rw [take_append] at hflat
    have hnocr : CR ∉ line.take m := fun hm => hline.no_cr (mem_of_mem_take hm)
    have hnolf : LF ∉ line.take m := fun hm => hline.no_lf (mem_of_mem_take hm)
    exact findCRLF_open hne hnocr hnolf (take_crlf tail (by omega)) [] 0 hflat
  rw [fromIOVecLoop]
  simp only [hnone]
  split <;> rfl

theorem advance_line (hflat : iovecs.flatten = (line ++ CR :: LF :: tail).take m)
    (hm : line.length + 2 ≤ m) :
    TailNonempty (advance (line.length + 2) iovecs) ∧
      (advance (line.length + 2) iovecs).flatten = tail.take (m - (line.length + 2)) := by
  refine ⟨(tailNonempty_advance hne _).1, ?_⟩
  rw [flatten_advance, hflat, drop_take, ← drop_drop, drop_left]
  rfl

theorem loop_line (hline : ValidLine line size)
    (hflat : iovecs.flatten = (line ++ CR :: LF :: tail).take m) (hm : line.length + 2 ≤ m) :
    findCRLF simd [] 0 iovecs = some (line, line.length + 2) ∧ iovecs ≠ [] := by
  have hfull : iovecs.flatten = line ++ CR :: LF :: tail.take (m - (line.length + 2)) := by
    rw [hflat, take_append, take_of_length_le (by omega)]
    congr 1
    rw [show m - line.length = m - (line.length + 2) + 1 + 1 by omega, take_succ_cons,
      take_succ_cons]
  have hsome : findCRLF simd [] 0 iovecs = some ([] ++ line, 0 + (line.length + 2)) :=
    findCRLF_line hne hline.no_cr hline.no_lf [] 0 hfull
  rw [nil_append, Nat.zero_add] at hsome
  refine ⟨hsome, ?_⟩
  rintro rfl
  cases hsome

theorem loop_last {rest : Bytes} (hline : ValidLine line 0)
    (hflat : iovecs.flatten = (line ++ CR :: LF :: CR :: LF :: rest).take m)
    (hm : line.length + 2 ≤ m) :
    fromIOVecLoop simd iovecs chunkData total hasParsedChunk =
      if m < line.length + 4 then
        incomplete hasParsedChunk chunkData (total + (line.length + 2))
      else (.ok (true, total + (line.length + 4)), chunkData) := by
  obtain ⟨hfind, hnil⟩ : findCRLF simd [] 0 iovecs = some (line, line.length + 2) ∧ iovecs ≠ [] :=
    loop_line hne hline hflat hm
  obtain ⟨hne', hflat'⟩ := advance_line hne hflat hm
  rw [fromIOVecLoop]
  simp only [hfind, hline.parse, if_neg hnil, if_true]
  by_cases hshort : m < line.length + 4
  · have hnone : findCRLF simd [] 0 (advance (line.length + 2) iovecs) = none :=
      findCRLF_open hne' not_mem_nil not_mem_nil (take_crlf rest (by omega)) [] 0
        (hflat'.trans (nil_append _).symm)
    rw [hnone, if_pos hshort]
    rfl
  have hfull : (advance (line.length + 2) iovecs).flatten =
      [] ++ CR :: LF :: rest.take (m - (line.length + 4)) := by
    rw [hflat', show m - (line.length + 2) = m - (line.length + 4) + 1 + 1 by omega]
    rfl
  have hsome : findCRLF simd [] 0 (advance (line.length + 2) iovecs) = some ([], 2) :=
    findCRLF_line hne' not_mem_nil not_mem_nil [] 0 hfull
  rw [hsome, if_neg hshort]
  simp [Nat.add_assoc]

theorem loop_chunk {data rest : Bytes} (hline : ValidLine line data.length) (hdata : data ≠ [])
    (hflat : iovecs.flatten = (line ++ CR :: LF :: (data ++ CR :: LF :: rest)).take m)
    (hsize : data.length + 2 ≤ sizeMax) (hm : line.length + 2 ≤ m) :
    (m < line.length + data.length + 4 ∧ fromIOVecLoop simd iovecs chunkData total hasParsedChunk =
        incomplete hasParsedChunk chunkData (total + (line.length + 2))) ∨
    (line.length + data.length + 4 ≤ m ∧ ∃ iovecs', TailNonempty iovecs' ∧
      iovecs'.flatten = rest.take (m - (line.length + data.length + 4)) ∧
      fromIOVecLoop simd iovecs chunkData total hasParsedChunk =
        fromIOVecLoop simd iovecs' (chunkData ++ data) (total + (line.length + data.length + 4))
          true) := by
  obtain ⟨hfind, hnil⟩ : findCRLF simd [] 0 iovecs = some (line, line.length + 2) ∧ iovecs ≠ [] :=
    loop_line hne hline hflat hm
  obtain ⟨hne', hflat'⟩ := advance_line hne hflat hm
  have hpos : data.length ≠ 0 := fun h => hdata (List.length_eq_zero_iff.1 h)
  have hmax : ¬ sizeMax - 2 < data.length := by omega
  have hsum : IoVecBytes.sum (advance (line.length + 2) iovecs) =
      min (m - (line.length + 2)) (data.length + (rest.length + 2)) := by
    rw [IoVecBytes.sum_eq, hflat', length_take]
    simp only [length_append, length_cons]
  by_cases hshort : m < line.length + data.length + 4
  · refine .inl ⟨hshort, ?_⟩
    have hlt : IoVecBytes.sum (advance (line.length + 2) iovecs) < data.length + 2 := by omega
    rw [fromIOVecLoop]
    simp only [hfind, hline.parse, if_neg hnil, if_neg hpos, if_neg hmax, if_pos hlt]
    rfl
  have hge : ¬ IoVecBytes.sum (advance (line.length + 2) iovecs) < data.length + 2 := by omega
  have hread : readData data.length (advance (line.length + 2) iovecs) = data := by
    rw [readData_eq, hflat', take_take, Nat.min_eq_left (by omega), take_left]
  have hafter : (advance data.length (advance (line.length + 2) iovecs)).flatten =
      CR :: LF :: rest.take (m - (line.length + data.length + 4)) := by
    rw [flatten_advance, hflat', drop_take, drop_left, show m - (line.length + 2) - data.length =
        m - (line.length + data.length + 4) + 1 + 1 by omega]
    rfl
  obtain ⟨iovecs', hcrlf, hrest, htail⟩ :=
    dataCrlf_eq ((tailNonempty_advance hne' data.length).2 (Nat.pos_of_ne_zero hpos)) hafter
  refine .inr ⟨by omega, iovecs', htail, hrest, ?_⟩
  rw [fromIOVecLoop]
  simp only [hfind, hline.parse, if_neg hnil, if_neg hpos, if_neg hmax, if_neg hge, hread, ne_eq,
    not_true_eq_false, if_false]
  split
  · next h => rw [hcrlf] at h; cases h
  next h =>
  rw [hcrlf] at h
  cases h
  congr 1
  omega

end

/-- One call on the first `m` bytes of a chunked body. Either they hold all of it, or the call takes
the `k` bytes of the chunks that are complete and reports them. -/
theorem loop_wire (hwire : Wire bytes body n)
    (hbytes : bytes.length ≤ sizeMax) (hne : TailNonempty iovecs)
    (hflat : iovecs.flatten = bytes.take m)
    (hsafe : ∀ {first lineEnd last : Nat}, ChunkAt bytes first lineEnd last →
      (hasParsedChunk = true ∨ 0 < first) → lineEnd ≤ m → last ≤ m) :
    (n ≤ m ∧ fromIOVecLoop simd iovecs chunkData total hasParsedChunk =
      (.ok (true, total + n), chunkData ++ body)) ∨
    (m < n ∧ ∃ k taken left, k ≤ m ∧ body = taken ++ left ∧ Wire (bytes.drop k) left (n - k) ∧
      (∃ lineEnd last, ChunkAt (bytes.drop k) 0 lineEnd last ∧ m < k + last) ∧
      (∀ {first lineEnd last : Nat}, ChunkAt (bytes.drop k) first lineEnd last →
        ChunkAt bytes (k + first) (k + lineEnd) (k + last)) ∧
      fromIOVecLoop simd iovecs chunkData total hasParsedChunk =
        incomplete (hasParsedChunk || decide (0 < k)) (chunkData ++ taken) (total + k)) := by
  induction hwire generalizing iovecs m chunkData total hasParsedChunk with
  | @last line rest hline =>
    by_cases hm : line.length + 2 ≤ m
    · rw [loop_last hne hline hflat hm]
      by_cases hshort : m < line.length + 4
      · -- The size line is complete, so that no other chunk may have been parsed.
        have hfirst : hasParsedChunk = false := by
          by_contra hparsed
          have hle := hsafe (.last rest hline) (.inl (by simpa using hparsed)) hm
          omega
        refine .inr ⟨hshort, 0, [], [], Nat.zero_le _, rfl, .last rest hline,
          ⟨_, _, .last rest hline, by omega⟩, fun h => by simpa using h, ?_⟩
        rw [if_pos hshort, hfirst]
        simp [incomplete]
      exact .inl ⟨by omega, by rw [if_neg hshort, append_nil]⟩
    refine .inr ⟨by omega, 0, [], [], Nat.zero_le _, rfl, .last rest hline,
      ⟨_, _, .last rest hline, by omega⟩, fun h => by simpa using h, ?_⟩
    rw [loop_short hne hline hflat (by omega)]
    simp
  | @chunk line data rest body n hline hdata hrest ih =>
  have hwire := Wire.chunk hline hdata hrest
  by_cases hm : line.length + 2 ≤ m
  · have hlen : line.length + data.length + 4 + rest.length ≤ sizeMax := by
      simp only [length_append, length_cons] at hbytes
      omega
    rcases loop_chunk hne hline hdata hflat (by omega) hm with
      ⟨hshort, hloop⟩ | ⟨hfull, iovecs', hne', hflat', hloop⟩
    · have hfirst : hasParsedChunk = false := by
        by_contra hparsed
        have hle := hsafe (.head rest hline hdata) (.inl (by simpa using hparsed)) hm
        omega
      refine .inr ⟨by omega, 0, [], data ++ body, Nat.zero_le _, rfl, hwire,
        ⟨_, _, .head rest hline hdata, by omega⟩, fun h => by simpa using h, ?_⟩
      rw [hloop, hfirst]
      simp [incomplete]
    rw [hloop]
    have hdrop : (line ++ CR :: LF :: (data ++ CR :: LF :: rest)).drop
        (line.length + data.length + 4) = rest := by
      rw [show line.length + data.length + 4 = line.length + (2 + (data.length + 2)) by omega,
        ← drop_drop, drop_left, ← drop_drop, ← drop_drop]
      change ((data ++ CR :: LF :: rest).drop data.length).drop 2 = rest
      rw [drop_left]
      rfl
    have hsafe' : ∀ {first lineEnd last : Nat}, ChunkAt rest first lineEnd last →
        (true = true ∨ 0 < first) → lineEnd ≤ m - (line.length + data.length + 4) →
        last ≤ m - (line.length + data.length + 4) := by
      intro first lineEnd last hchunk _ hle
      have hlast := hsafe (.later hline hdata hchunk) (.inr (by omega)) (by omega)
      omega
    rcases @ih iovecs' (chunkData ++ data) _ (total + (line.length + data.length + 4)) true
        (by omega) hne' hflat' hsafe' with
      ⟨hle, hdone⟩ | ⟨hlt, k, taken, left, hk, rfl, hleft, ⟨lineEnd, last, hchunk, hlast⟩,
        hshift, hmore⟩
    · refine .inl ⟨by omega, ?_⟩
      rw [hdone, append_assoc]
      simp only [Prod.mk.injEq, Except.ok.injEq, true_and, and_true]
      omega
    have hdrop' : (line ++ CR :: LF :: (data ++ CR :: LF :: rest)).drop
        (line.length + data.length + 4 + k) = rest.drop k := by
      rw [← drop_drop, hdrop]
    refine .inr ⟨by omega, line.length + data.length + 4 + k, data ++ taken, left, by omega,
      by rw [append_assoc], ?_, ?_, ?_, ?_⟩
    · rw [hdrop', Nat.add_sub_add_left]
      exact hleft
    · rw [hdrop']
      exact ⟨lineEnd, last, hchunk, by omega⟩
    · intro first lineEnd last h
      rw [hdrop'] at h
      rw [Nat.add_assoc, Nat.add_assoc _ k, Nat.add_assoc _ k]
      exact .later hline hdata (hshift h)
    have hpos : 0 < line.length + data.length + 4 + k := by omega
    rw [hmore, decide_eq_true hpos, Bool.true_or, Bool.or_true]
    congr 1
    · rw [append_assoc]
    omega
  refine .inr ⟨by omega, 0, [], data ++ body, Nat.zero_le _, rfl, hwire,
    ⟨_, _, .head rest hline hdata, by omega⟩, fun h => by simpa using h, ?_⟩
  rw [loop_short hne hline hflat (by omega)]
  simp

end

/-! ## Growing prefixes -/

theorem line_unique {rest rest' : Bytes} (hnocr : CR ∉ line) (hnocr' : CR ∉ line')
    (h : line ++ CR :: rest = line' ++ CR :: rest') : line = line' := by
  obtain ⟨mid, rfl, htail⟩ := append_eq_line hnocr h
  cases mid with
  | nil => rw [append_nil]
  | cons c mid =>
  rw [cons_append, List.cons.injEq] at htail
  refine absurd ?_ hnocr'
  rw [← htail.1]
  exact mem_append_right _ (mem_cons_self ..)

theorem validLine_unique {rest rest' : Bytes}
    (hline : ValidLine line size) (hline' : ValidLine line' size')
    (h : line ++ CR :: rest = line' ++ CR :: rest') :
    line.length = line'.length ∧ size = size' := by
  obtain rfl := line_unique hline.no_cr hline'.no_cr h
  have hsize := hline.parse
  rw [hline'.parse, Except.ok.injEq] at hsize
  exact ⟨rfl, hsize.symm⟩

theorem last_le_first (h : ChunkAt bytes 0 lineEnd last) (h' : ChunkAt bytes first lineEnd' last')
    (hfirst : 0 < first) : last ≤ first := by
  generalize hstart : 0 = start at h
  cases h' with
  | last rest hline => omega
  | head rest hline hdata => omega
  | @later line data rest first lineEnd' last' hline hdata hrest =>
  generalize hbytes : line ++ CR :: LF :: (data ++ CR :: LF :: rest) = bytes at h
  cases h with
  | last rest' hline' =>
    obtain ⟨-, hsize⟩ := validLine_unique hline hline' hbytes
    exact absurd (List.length_eq_zero_iff.1 hsize) hdata
  | head rest' hline' hdata' =>
    obtain ⟨hlen, hsize⟩ := validLine_unique hline hline' hbytes
    omega
  | later hline' hdata' hrest' => omega

/-- A call on the part of the first `upto` bytes that has not been consumed. The array shows it in
any number of pieces, none of them empty. -/
structure PrefixCall where
  upto : Nat
  split : Bytes → IoVecs
  flatten_split : ∀ bytes, (split bytes).flatten = bytes
  nonempty : ∀ bytes, [] ∉ split bytes

/-- Calls one after the other, each without the bytes that those before it have reported. Bytes that
are missing are waited for, every other error ends the calls. -/
def decodePrefixes (simd : Bool) (bytes : Bytes) :
    List PrefixCall → (total : Nat) → (chunkData : Bytes) → Except HttpError (Bool × Nat) × Bytes
  | [], total, chunkData => (.ok (false, total), chunkData)
  | call :: calls, total, chunkData =>
    match fromIOVec simd (call.split ((bytes.take call.upto).drop total)) chunkData with
    | (.ok (true, consumed), chunkData) => (.ok (true, total + consumed), chunkData)
    | (.ok (false, consumed), chunkData) =>
      decodePrefixes simd bytes calls (total + consumed) chunkData
    | (.error error, chunkData) =>
      if error.code = .kIncomplete then decodePrefixes simd bytes calls total chunkData
      else (.error error, chunkData)

/-- The prefix of `upto'` bytes ends inside a chunk, behind its size line, and the prefix of `upto`
bytes before it does not reach the beginning of that chunk. -/
def CutsLater (bytes : Bytes) (upto upto' : Nat) : Prop :=
  ∃ first lineEnd last, ChunkAt bytes first lineEnd last ∧ upto < first ∧ lineEnd ≤ upto' ∧
    upto' < last

theorem decodePrefixes_wire {bytes body chunkData : Bytes} {n upto total : Nat}
    {calls : List PrefixCall} (hbytes : bytes.length ≤ sizeMax)
    (hwire : Wire (bytes.drop total) body n) (htotal : total ≤ upto)
    (hnext : ∃ lineEnd last, ChunkAt (bytes.drop total) 0 lineEnd last ∧ upto < total + last)
    (hshift : ∀ {first lineEnd last : Nat}, ChunkAt (bytes.drop total) first lineEnd last →
      ChunkAt bytes (total + first) (total + lineEnd) (total + last))
    (hgrow : List.IsChain (fun upto upto' => upto ≤ upto' ∧ ¬ CutsLater bytes upto upto')
      (upto :: calls.map PrefixCall.upto))
    (hall : ∃ call ∈ calls, total + n ≤ call.upto) :
    decodePrefixes simd bytes calls total chunkData =
      (.ok (true, total + n), chunkData ++ body) := by
  induction calls generalizing body chunkData n upto total with
  | nil =>
    obtain ⟨call, hmem, -⟩ := hall
    cases hmem
  | cons call calls ih =>
  rw [map_cons, isChain_cons_cons] at hgrow
  obtain ⟨⟨hle, hsafe⟩, hgrow⟩ := hgrow
  have hview : (call.split ((bytes.take call.upto).drop total)).flatten =
      (bytes.drop total).take (call.upto - total) := by
    rw [call.flatten_split, drop_take]
  have htail : TailNonempty (call.split ((bytes.take call.upto).drop total)) :=
    fun hmem => call.nonempty _ (mem_of_mem_tail hmem)
  have hlen : (bytes.drop total).length ≤ sizeMax := by
    rw [length_drop]
    omega
  obtain ⟨lineEnd₀, last₀, hchunk₀, hupto⟩ := hnext
  have hsafe' : ∀ {first lineEnd last : Nat}, ChunkAt (bytes.drop total) first lineEnd last →
      (false = true ∨ 0 < first) → lineEnd ≤ call.upto - total → last ≤ call.upto - total := by
    rintro first lineEnd last hchunk (hfalse | hfirst) hline
    · cases hfalse
    by_contra hlast
    have hle₀ := last_le_first hchunk₀ hchunk hfirst
    exact hsafe ⟨_, _, _, hshift hchunk, by omega, by omega, by omega⟩
  rw [decodePrefixes, fromIOVec]
  rcases loop_wire hwire hlen htail hview hsafe' with
    ⟨-, hdone⟩ | ⟨hmore, k, taken, left, hk, rfl, hleft, ⟨lineEnd, last, hchunk, hlast⟩,
      hshift', hloop⟩
  · rw [hdone, Nat.zero_add]
  -- The call has taken the complete chunks; the rest is left to the calls after it.
  have hrun : decodePrefixes simd bytes calls (total + k) (chunkData ++ taken) =
      (.ok (true, total + k + (n - k)), chunkData ++ taken ++ left) := by
    rw [drop_drop] at hleft hchunk
    refine ih hleft (by omega : total + k ≤ call.upto)
      ⟨lineEnd, last, hchunk, by omega⟩ ?_ hgrow ?_
    · intro first lineEnd last h
      rw [← drop_drop] at h
      have hshifted := hshift (hshift' h)
      rw [← Nat.add_assoc, ← Nat.add_assoc, ← Nat.add_assoc] at hshifted
      exact hshifted
    obtain ⟨call', hmem, hle'⟩ := hall
    rcases List.mem_cons.1 hmem with rfl | hmem
    · omega
    exact ⟨call', hmem, by omega⟩
  have hres : (Except.ok (true, total + k + (n - k)), chunkData ++ taken ++ left) =
      ((Except.ok (true, total + n), chunkData ++ (taken ++ left)) :
        Except HttpError (Bool × Nat) × Bytes) := by
    rw [append_assoc, show total + k + (n - k) = total + n by omega]
  rw [hloop, ← hres, ← hrun]
  by_cases hpos : 0 < k
  · simp [incomplete, hpos]
  have hzero : k = 0 := by omega
  simp [incomplete, hzero]

/-- Where the incremental parser reports the end of the body, so does the stateless decoder. -/
theorem decodePrefixes_of_parse (hbytes : bytes.length ≤ sizeMax)
    (hdone : (ChunkParser.parse {} [bytes] [] maxBodySize).result = .ok (true, n))
    (hgrow : List.IsChain (fun upto upto' => upto ≤ upto' ∧ ¬ CutsLater bytes upto upto')
      (0 :: calls.map PrefixCall.upto)) (hall : ∃ call ∈ calls, n ≤ call.upto) :
    decodePrefixes simd bytes calls 0 [] =
      (.ok (true, n), (ChunkParser.parse {} [bytes] [] maxBodySize).body) := by
  have hwire := ChunkParser.wire_of_parse hdone
  generalize (ChunkParser.parse {} [bytes] [] maxBodySize).body = body at hwire ⊢
  have hnext : ∃ lineEnd last, ChunkAt bytes 0 lineEnd last ∧ 0 < 0 + last := by
    cases hwire with
    | last rest hline => exact ⟨_, _, .last rest hline, by omega⟩
    | chunk hline hdata hrest => exact ⟨_, _, .head _ hline hdata, by omega⟩
  have hrun := @decodePrefixes_wire simd bytes body [] n 0 0 calls hbytes hwire (le_refl 0) hnext
    (fun h => by simpa using h) hgrow (by simpa using hall)
  rw [Nat.zero_add, nil_append] at hrun
  exact hrun

end Chunk

open ChunkParser Chunk in
/-- However a chunked body is dealt out to calls of the incremental parser, the outcome is that of
one call, and the body stays below the limit. The stateless decoder gives the same body and the
same length on growing prefixes, if none of them ends inside a chunk that is new to its call. -/
theorem chunked_decoding (simd : Bool) (bytes : Bytes) (maxBodySize : Nat)
    (hbytes : bytes.length ≤ sizeMax) :
    (∀ calls : List IoVecs, calls.flatten.flatten = bytes →
      parseCalls maxBodySize (start {} []) calls = parse {} [bytes] [] maxBodySize) ∧
    (maxBodySize ≠ 0 → (parse {} [bytes] [] maxBodySize).body.length ≤ maxBodySize) ∧
    (∀ n, (parse {} [bytes] [] maxBodySize).result = .ok (true, n) →
      ∀ calls : List PrefixCall,
        List.IsChain (fun upto upto' => upto ≤ upto' ∧ ¬ CutsLater bytes upto upto')
          (0 :: calls.map PrefixCall.upto) →
        (∃ call ∈ calls, n ≤ call.upto) →
        decodePrefixes simd bytes calls 0 [] =
          (.ok (true, n), (parse {} [bytes] [] maxBodySize).body)) := by
  refine ⟨?_, ?_, ?_⟩
  · rintro calls rfl
    exact parseCalls_eq {} [] calls
  · intro hmax
    exact length_body_le hmax (Nat.zero_le _) [bytes]
  intro n hdone calls hgrow hall
  exact decodePrefixes_of_parse hbytes hdone hgrow hall

/-- A call that shows its bytes as one piece. -/
def wholeCall (upto : Nat) : Chunk.PrefixCall where
  upto := upto
  split bytes := if bytes = [] then [] else [bytes]
  flatten_split bytes := by
    split
    · next h => rw [h]; rfl
    · exact List.flatten_singleton
  nonempty bytes := by
    split
    · exact List.not_mem_nil
    · next h => exact mt List.mem_cons.1 (not_or.2 ⟨Ne.symm h, List.not_mem_nil⟩)

/-- One chunk with one byte, and the last chunk. -/
def oneByteBody : Bytes := ascii "1\r\na\r\n0\r\n\r\n"

/-- The second call gets the end of the last chunk without its size line. -/
theorem oneByteBody_disagrees :
    (ChunkParser.parse {} [oneByteBody] [] 0).result = .ok (true, 11) ∧
      (ChunkParser.parse {} [oneByteBody] [] 0).body = [0x61] ∧
      Chunk.decodePrefixes true oneByteBody [wholeCall 9, wholeCall 11] 0 [] =
        (.error { code := .kChunkSizeConvertError }, [0x61]) := by
  decide +kernel

theorem chunked_decoding_oneByteBody :
    oneByteBody.length ≤ sizeMax ∧
      Chunk.decodePrefixes true oneByteBody [wholeCall 6, wholeCall 11] 0 [] =
        (.ok (true, 11), [0x61]) := by
  have hbytes : oneByteBody.length ≤ sizeMax := by decide +kernel
  have hfirst : ChunkAt oneByteBody 0 3 6 :=
    @ChunkAt.head [0x31] [0x61] (ascii "0\r\n\r\n") ⟨by decide, by decide, by decide +kernel⟩
      (cons_ne_nil _ _)
  have hgrow : List.IsChain
      (fun upto upto' => upto ≤ upto' ∧ ¬ Chunk.CutsLater oneByteBody upto upto') [0, 6, 11] := by
    refine .cons_cons ⟨by decide, ?_⟩ (.cons_cons ⟨by decide, ?_⟩ (.singleton 11))
    · rintro ⟨first, lineEnd, last, hchunk, hpos, hline, -⟩
      have hle := Chunk.last_le_first hfirst hchunk hpos
      have hsize := hchunk.bounds
      omega
    rintro ⟨first, lineEnd, last, hchunk, -, -, hlast⟩
    have hsize := hchunk.bounds
    have hlen : oneByteBody.length = 11 := by decide +kernel
    omega
  refine ⟨hbytes, ?_⟩
  rw [(chunked_decoding true oneByteBody 0 hbytes).2.2 11 (by decide +kernel) [wholeCall 6, wholeCall 11] hgrow
    ⟨wholeCall 11, mem_cons_of_mem _ (mem_cons_self ..), by decide⟩]
  decide +kernel

end Galay.Http
