import Galay.Http.ChunkAgreement
import Galay.Lib.ToChars

/-!
# Chunks that are written and read back

`Chunk::toChunk` writes a chunk of any length and the last chunk. Of an empty string it makes the
last chunk in either way, so that a body is read back as it was written if no piece of it is empty,
and up to its first empty piece otherwise.
-/

namespace Galay.Http

open List
open Lib (Progress feed numeral)

namespace Chunk

def toChunk (data : Bytes) (isLast : Bool) : Bytes :=
  if isLast then ascii "0\r\n\r\n"
  else numeral 16 data.length ++ CR :: LF :: (data ++ [CR, LF])

/-- A body in pieces, and its end. -/
def toChunks (pieces : List Bytes) : Bytes :=
  (pieces.map (toChunk · false)).flatten ++ toChunk [] true

theorem toChunk_nil (isLast : Bool) : toChunk [] isLast = [0x30, CR, LF, CR, LF] := by
  cases isLast <;> rfl

theorem toChunks_cons (piece : Bytes) (pieces : List Bytes) :
    toChunks (piece :: pieces) = toChunk piece false ++ toChunks pieces := by
  rw [toChunks, toChunks, map_cons, flatten_cons, append_assoc]

/-- What follows an empty piece comes after the end of the body. -/
theorem toChunks_append_nil (front back : List Bytes) :
    toChunks (front ++ [] :: back) = toChunks front ++ toChunks back := by
  induction front with
  | nil =>
    rw [nil_append, toChunks_cons, toChunk_nil]
    rfl
  | cons piece front ih => rw [cons_append, toChunks_cons, toChunks_cons, ih, append_assoc]

theorem toChunks_ne_nil (pieces : List Bytes) : toChunks pieces ≠ [] := by
  intro h
  cases (List.append_eq_nil_iff.1 h).2

end Chunk

theorem validLine_numeral (h : size ≤ sizeMax) : ValidLine (numeral 16 size) size := by
  have hdigit {c : UInt8} (hc : c ∈ numeral 16 size) : Lib.isDigit 16 c = true :=
    Lib.isDigit_of_mem_numeral (by decide) (by decide) hc
  refine ⟨fun hcr => ?_, fun hlf => ?_, ?_⟩
  · have := hdigit hcr
    contradiction
  · have := hdigit hlf
    contradiction
  have htake : (numeral 16 size).takeWhile (· != 0x3b) = numeral 16 size := by
    refine List.takeWhile_eq_self_iff.2 fun c hc => ?_
    have := hdigit hc
    refine bne_iff_ne.2 ?_
    rintro rfl
    contradiction
  unfold parseChunkSizeLine
  simp only [htake]
  rw [if_neg (Lib.numeral_ne_nil 16 size), Lib.fromChars_numeral (by decide) (by decide) h]
  rfl

namespace ChunkParser

theorem feed_line {body line buffer : Bytes} (hnocr : CR ∉ line) (hnolf : LF ∉ line)
    (hlen : buffer.length + line.length ≤ kMaxChunkLineSize) :
    feed (react 0) (atLine buffer, body) line = .more (atLine (buffer ++ line), body) := by
  induction line generalizing buffer with
  | nil => rw [append_nil, Lib.feed_nil]
  | cons c line ih =>
  have hcr : c ≠ CR := fun h => hnocr (h ▸ mem_cons_self ..)
  have hlf : c ≠ LF := fun h => hnolf (h ▸ mem_cons_self ..)
  rw [length_cons] at hlen
  have hshort : ¬ kMaxChunkLineSize ≤ buffer.length := by omega
  have hstep : (atLine buffer).sizeLineChar body.length 0 c = (atLine (buffer ++ [c]), none) := by
    simp [sizeLineChar, atLine, hcr, hlf, hshort]
  have hrest := @ih (buffer ++ [c]) (fun h => hnocr (mem_cons_of_mem c h))
    (fun h => hnolf (mem_cons_of_mem c h)) (by
      rw [length_append, length_singleton]
      omega)
  rw [feed_char_next (react_sizeLine rfl c) line hstep (by rintro ⟨⟩), hrest, append_assoc,
    singleton_append]
  rfl

theorem feed_sizeLineEnd (hstep : (afterCr line).sizeLineChar body.length 0 LF = (parser, none))
    (hmore : parser.phase ≠ .kDone) :
    feed (react 0) (atLine line, body) [CR, LF] = .more (parser, body) := by
  have hcr : (atLine line).sizeLineChar body.length 0 CR = (afterCr line, none) := rfl
  rw [feed_char_next (react_sizeLine rfl CR) [LF] hcr nofun,
    feed_char_next (react_sizeLine rfl LF) [] hstep hmore]
  rfl

theorem length_numeral_le (h : size ≤ sizeMax) : (numeral 16 size).length ≤ kMaxChunkLineSize := by
  have hlt : size < 16 ^ 16 := Nat.lt_of_le_of_lt h (by decide)
  have hle := Lib.length_numeral_le (by decide) (by decide) hlt
  exact Nat.le_trans hle (by decide)

theorem feed_chunk {body data : Bytes} (hne : data ≠ []) (hsize : data.length ≤ sizeMax) :
    feed (react 0) (atLine [], body) (Chunk.toChunk data false) = .more (atLine [], body ++ data) := by
  have hline := validLine_numeral hsize
  have hpos : data.length ≠ 0 := fun h => hne (List.length_eq_zero_iff.1 h)
  let reading : ChunkParser :=
    { currentChunkSize := data.length, phase := .kData
      read_lt := fun _ => Nat.pos_of_ne_zero hpos }
  let read : ChunkParser :=
    { currentChunkSize := data.length, currentChunkRead := data.length, phase := .kDataCrlf }
  have hnumeral : feed (react 0) (atLine [], body) (numeral 16 data.length) =
      .more (atLine (numeral 16 data.length), body) := by
    have h := @feed_line body (numeral 16 data.length) [] hline.no_cr hline.no_lf (by
      rw [length_nil, Nat.zero_add]
      exact length_numeral_le hsize)
    exact h
  have hlineEnd : feed (react 0) (atLine (numeral 16 data.length), body) [CR, LF] =
      .more (reading, body) := by
    refine feed_sizeLineEnd ?_ (by rintro ⟨⟩)
    have hparse : parseChunkSizeLine (afterCr (numeral 16 data.length)).lineBuffer =
        .ok data.length := hline.parse
    unfold sizeLineChar
    rw [if_pos (show (afterCr (numeral 16 data.length)).pendingCr = true from rfl)]
    simp only [bne_self_eq_false, Bool.false_eq_true, if_false, hparse, dif_neg hpos]
    rfl
  have hdata : feed (react 0) (reading, body) data = .more (read, body ++ data) := by
    rw [feed_data rfl hne (Nat.le_refl _)]
    have hblock : (reading.dataBlock data.length).2 = read := by
      unfold dataBlock
      simp [reading, read]
    rw [hblock]
  have hcr : read.dataCrlfChar CR = ({ read with pendingCr := true }, none) := rfl
  have hlf : ({ read with pendingCr := true } : ChunkParser).dataCrlfChar LF = (atLine [], none) := rfl
  have hcrlf : feed (react 0) (read, body ++ data) [CR, LF] = .more (atLine [], body ++ data) := by
    rw [feed_char_next (react_dataCrlf rfl CR) [LF] hcr (by rintro ⟨⟩),
      feed_char_next (react_dataCrlf rfl LF) [] hlf (by rintro ⟨⟩)]
    rfl
  have hwhole : Chunk.toChunk data false =
      numeral 16 data.length ++ ([CR, LF] ++ (data ++ [CR, LF])) := rfl
  rw [hwhole, Lib.feed_append_of_more hnumeral, Lib.feed_append_of_more hlineEnd,
    Lib.feed_append_of_more hdata, hcrlf]
  rfl

theorem feed_lastChunk (body data : Bytes) :
    feed (react 0) (atLine [], body) (Chunk.toChunk data true) =
      .stopped ({ phase := .kDone }, body) (Chunk.toChunk data true).length := by
  have hlast : ((afterCr [0x30]).sizeLineChar body.length 0 LF) =
      ({ phase := .kLastTrailerLine }, none) := rfl
  have hline : feed (react 0) (atLine [], body) [0x30] = .more (atLine [0x30], body) :=
    @feed_line body [0x30] [] (by decide) (by decide) (by decide)
  have hlineEnd := feed_sizeLineEnd hlast (by rintro ⟨⟩)
  have hcr : lastTrailerLineChar { phase := .kLastTrailerLine } CR =
      ({ phase := .kLastTrailerLine, pendingCr := true }, none) := rfl
  have hlf : lastTrailerLineChar { phase := .kLastTrailerLine, pendingCr := true } LF =
      ({ phase := .kDone }, none) := rfl
  have htrailer : feed (react 0) (({ phase := .kLastTrailerLine } : ChunkParser), body) [CR, LF] =
      .stopped ({ phase := .kDone }, body) 2 := by
    rw [feed_char_next (react_lastTrailerLine rfl CR) [LF] hcr (by rintro ⟨⟩),
      feed_char_stop (react_lastTrailerLine rfl LF) [] hlf rfl]
    rfl
  have hwhole : Chunk.toChunk data true = [0x30] ++ ([CR, LF] ++ [CR, LF]) := rfl
  rw [hwhole, Lib.feed_append_of_more hline, Lib.feed_append_of_more hlineEnd, htrailer]
  rfl

theorem feed_chunks (hsizes : ∀ piece ∈ pieces, piece.length ≤ sizeMax)
    (hne : [] ∉ pieces) (body : Bytes) : feed (react 0) (atLine [], body) (Chunk.toChunks pieces) =
      .stopped ({ phase := .kDone }, body ++ pieces.flatten) (Chunk.toChunks pieces).length := by
  induction pieces generalizing body with
  | nil =>
    rw [flatten_nil, append_nil]
    exact feed_lastChunk body []
  | cons piece pieces ih =>
  have hpiece : piece ≠ [] := fun h => hne (h ▸ mem_cons_self ..)
  have hchunk := @feed_chunk body piece hpiece (hsizes piece (mem_cons_self ..))
  have hrest := ih (fun piece' h => hsizes piece' (mem_cons_of_mem piece h))
    (fun h => hne (mem_cons_of_mem piece h)) (body ++ piece)
  rw [Chunk.toChunks_cons, Lib.feed_append_of_more hchunk, hrest, flatten_cons,
    append_assoc, Progress.shift_stopped, length_append]

/-- A body without an empty piece is read up to its end, whatever follows it. -/
theorem parse_toChunks {pieces : List Bytes} (hsizes : ∀ piece ∈ pieces, piece.length ≤ sizeMax)
    (hne : [] ∉ pieces) {trailing : Bytes} {iovecs : IoVecs}
    (hinput : iovecs.flatten = Chunk.toChunks pieces ++ trailing) (body : Bytes) :
    parse {} iovecs body 0 = ⟨{ phase := .kDone }, body ++ pieces.flatten,
      .ok (true, (Chunk.toChunks pieces).length)⟩ := by
  have hfeed := Lib.feed_append_of_stopped (feed_chunks hsizes hne body) trailing
  have hstart : (atLine [] : ChunkParser) = {} := rfl
  have hph : ({} : ChunkParser).phase ≠ .kDone := nofun
  rw [hstart] at hfeed
  rw [parse, parseIovs_eq hph, hinput, hfeed, outcome, Nat.zero_add]

/-- A body is read back as it was written exactly if none of its pieces is empty. -/
theorem toChunks_roundTrip_iff {pieces : List Bytes}
    (hsizes : ∀ piece ∈ pieces, piece.length ≤ sizeMax) {trailing : Bytes} {iovecs : IoVecs}
    (hinput : iovecs.flatten = Chunk.toChunks pieces ++ trailing) (body : Bytes) :
    let outcome := parse {} iovecs body 0
    (outcome.result = .ok (true, (Chunk.toChunks pieces).length) ∧
      outcome.body = body ++ pieces.flatten) ↔ [] ∉ pieces := by
  constructor
  · rintro ⟨hres, -⟩ hmem
    -- the first empty piece ends the body
    obtain ⟨front, back, rfl, hfront⟩ := eq_append_cons_of_mem hmem
    have hcut : iovecs.flatten =
        Chunk.toChunks front ++ (Chunk.toChunks back ++ trailing) := by
      rw [hinput, Chunk.toChunks_append_nil, append_assoc]
    have hfrontSizes : ∀ piece ∈ front, piece.length ≤ sizeMax := fun piece h =>
      hsizes piece (mem_append_left _ h)
    rw [parse_toChunks hfrontSizes hfront hcut, Chunk.toChunks_append_nil, length_append]
      at hres
    have hpos := List.length_pos_iff.2 (Chunk.toChunks_ne_nil back)
    simp only [Except.ok.injEq, Prod.mk.injEq, true_and] at hres
    omega
  intro hne
  rw [parse_toChunks hsizes hne hinput]
  exact ⟨rfl, rfl⟩

theorem toChunks_roundTrip_onePiece :
    let outcome := parse {} [Chunk.toChunks [ascii "ab"], ascii "GET"] (ascii "x") 0
    outcome.result = .ok (true, 12) ∧ outcome.body = ascii "xab" :=
  (@toChunks_roundTrip_iff [ascii "ab"] (by decide) (ascii "GET")
    [Chunk.toChunks [ascii "ab"], ascii "GET"] rfl (ascii "x")).2 (by decide)

/-- Of an empty piece between two others the first is left. -/
theorem emptyPiece_not_roundTrip :
    let outcome := parse {} [Chunk.toChunks [ascii "a", [], ascii "b"]] [] 0
    outcome.result = .ok (true, 11) ∧ outcome.body = ascii "a" ∧
      (Chunk.toChunks [ascii "a", [], ascii "b"]).length = 22 := by
  have hinput : [Chunk.toChunks [ascii "a", [], ascii "b"]].flatten =
      Chunk.toChunks [ascii "a"] ++ Chunk.toChunks [ascii "b"] := by decide
  have hparse := @parse_toChunks [ascii "a"] (by decide) (by decide) _ _ hinput []
  intro outcome
  have houtcome : outcome = _ := hparse
  rw [houtcome]
  exact ⟨by decide, by decide, by decide⟩

end ChunkParser

end Galay.Http
