import Galay.Http.Range
import Galay.Lib.Intervals

/-!
# What the ranges of a header cover

A byte-range-spec is read here with numbers of any size and asks for the bytes between its ends that
the file has. The parser serves those of the specs left after white space is taken out of the header
whose numbers fit into 64 bits, and for a suffix of no bytes it serves the whole file.
-/

namespace Galay.Http

open List

/-! ## Byte-range-specs -/

inductive ByteRangeSpec
  | firstLast (first last : Nat)
  | «from» (first : Nat)
  | suffix (length : Nat)
  deriving DecidableEq, Repr

namespace ByteRangeSpec

def number (text : Bytes) : Option Nat :=
  if text ≠ [] ∧ text.all (Lib.isDigit 10) = true then some (Lib.digitsValue 10 text) else none

/-- The numbers before and behind the first dash. -/
def ofText (text : Bytes) : Option ByteRangeSpec :=
  let first := text.takeWhile (· != 0x2d)
  match text.dropWhile (· != 0x2d) with
  | [] => none
  | _ :: last =>
    if first = [] then (number last).map .suffix
    else if last = [] then (number first).map .«from»
    else
      match number first, number last with
      | some first, some last => some (.firstLast first last)
      | _, _ => none

theorem ofText_of_dash {text last : Bytes} {dash : UInt8}
    (h : text.dropWhile (· != 0x2d) = dash :: last) :
    ofText text =
      if text.takeWhile (· != 0x2d) = [] then (number last).map .suffix
      else if last = [] then (number (text.takeWhile (· != 0x2d))).map .«from»
      else
        match number (text.takeWhile (· != 0x2d)), number last with
        | some first, some last => some (.firstLast first last)
        | _, _ => none := by
  rw [ofText, h]

/-- The bytes that are asked for; an unsatisfiable spec asks for none. -/
def Covers (fileSize : Nat) (i : Nat) : ByteRangeSpec → Prop
  | .firstLast first last => first ≤ last ∧ first ≤ i ∧ i ≤ last ∧ i < fileSize
  | .«from» first => first ≤ i ∧ i < fileSize
  | .suffix length => fileSize ≤ i + length ∧ i < fileSize

instance (fileSize i : Nat) (spec : ByteRangeSpec) : Decidable (spec.Covers fileSize i) := by
  cases spec <;> exact inferInstanceAs (Decidable (_ ∧ _))

/-- All numbers are `uint64_t`. -/
def Fits : ByteRangeSpec → Prop
  | .firstLast first last => first < 2 ^ 64 ∧ last < 2 ^ 64
  | .«from» first => first < 2 ^ 64
  | .suffix length => length < 2 ^ 64

/-- The bytes that the parser serves. -/
def Served (fileSize : Nat) (i : Nat) (spec : ByteRangeSpec) : Prop :=
  spec.Fits ∧ (spec.Covers fileSize i ∨ spec = .suffix 0 ∧ i < fileSize)

variable {fileSize i : Nat}

theorem served_firstLast : (firstLast first last).Served fileSize i ↔
      (first < 2 ^ 64 ∧ last < 2 ^ 64) ∧ first ≤ last ∧ first ≤ i ∧ i ≤ last ∧ i < fileSize := by
  constructor
  · rintro ⟨hfits, hcovers | ⟨⟨⟩, -⟩⟩
    exact ⟨hfits, hcovers⟩
  rintro ⟨hfits, hcovers⟩
  exact ⟨hfits, .inl hcovers⟩

theorem served_from :
    («from» first).Served fileSize i ↔ first < 2 ^ 64 ∧ first ≤ i ∧ i < fileSize := by
  constructor
  · rintro ⟨hfits, hcovers | ⟨⟨⟩, -⟩⟩
    exact ⟨hfits, hcovers⟩
  rintro ⟨hfits, hcovers⟩
  exact ⟨hfits, .inl hcovers⟩

theorem served_suffix {length : Nat} :
    (suffix length).Served fileSize i ↔
      length < 2 ^ 64 ∧ (fileSize ≤ i + length ∨ length = 0) ∧ i < fileSize := by
  constructor
  · rintro ⟨hfits, ⟨hcovers, hlt⟩ | ⟨hzero, hlt⟩⟩
    · exact ⟨hfits, .inl hcovers, hlt⟩
    exact ⟨hfits, .inr (suffix.inj hzero), hlt⟩
  rintro ⟨hfits, hcovers | rfl, hlt⟩
  · exact ⟨hfits, .inl ⟨hcovers, hlt⟩⟩
  exact ⟨hfits, .inr ⟨rfl, hlt⟩⟩

theorem Served.lt {spec : ByteRangeSpec} (h : spec.Served fileSize i) : i < fileSize := by
  cases spec with
  | firstLast first last =>
    obtain ⟨-, -, -, -, hlt⟩ := served_firstLast.1 h
    exact hlt
  | «from» first =>
    obtain ⟨-, -, hlt⟩ := served_from.1 h
    exact hlt
  | suffix length =>
  obtain ⟨-, -, hlt⟩ := served_suffix.1 h
  exact hlt

end ByteRangeSpec

/-- The specs written in a header. -/
def writtenSpecs (rangeHeader : Bytes) : List ByteRangeSpec :=
  ((splitComma (rangeHeader.drop (ascii "bytes=").length)).map trimAscii).filterMap
    ByteRangeSpec.ofText

/-- The specs in a header without its white space. -/
def strippedSpecs (rangeHeader : Bytes) : List ByteRangeSpec :=
  (splitComma ((rangeHeader.drop (ascii "bytes=").length).filter fun c => !isSpace c)).filterMap
    ByteRangeSpec.ofText

/-- A range inside the file, with its length. -/
structure HttpRange.Within (fileSize : UInt64) (range : HttpRange) : Prop where
  start_le : range.start.toNat ≤ range.last.toNat
  last_lt : range.last.toNat < fileSize.toNat
  length_eq : range.length.toNat = range.last.toNat - range.start.toNat + 1

namespace HttpRange

def toInterval (range : HttpRange) : Lib.Interval := ⟨range.start.toNat, range.last.toNat⟩

variable {fileSize s e : UInt64}

/-- No difference and no sum wraps around. -/
theorem length_toNat (hle : s.toNat ≤ e.toNat) (hlt : e.toNat < fileSize.toNat) :
    (e - s + 1).toNat = e.toNat - s.toNat + 1 := by
  have hsize := fileSize.toNat_lt
  have hsub : (e - s).toNat = e.toNat - s.toNat :=
    UInt64.toNat_sub_of_le _ _ (UInt64.le_iff_toNat_le.2 hle)
  rw [UInt64.toNat_add, hsub]
  exact Nat.mod_eq_of_lt (by
    show e.toNat - s.toNat + 1 < 2 ^ 64
    omega)

theorem within_ofBounds (hle : s.toNat ≤ e.toNat) (hlt : e.toNat < fileSize.toNat) :
    Within fileSize (ofBounds s e) :=
  ⟨hle, hlt, length_toNat hle hlt⟩

theorem Within.isValid {range : HttpRange} (h : Within fileSize range) : range.isValid = true := by
  have hlen : 0 < range.length.toNat := by
    rw [h.length_eq]
    exact Nat.succ_pos _
  rw [HttpRange.isValid, Bool.and_eq_true, decide_eq_true_eq, decide_eq_true_eq]
  exact ⟨UInt64.le_iff_toNat_le.2 h.start_le, UInt64.lt_iff_toNat_lt.2 hlen⟩

end HttpRange

/-! ## The parts of a header -/

theorem splitComma_cons_comma (text : Bytes) : splitComma (0x2c :: text) = [] :: splitComma text := by
  rw [splitComma, splitComma, splitOn_eq_splitOnP, splitOnP_cons_eq_if_modifyHead,
    if_pos (beq_self_eq_true _), splitOn_eq_splitOnP]

theorem splitComma_cons (hc : c ≠ 0x2c) (text : Bytes) :
    splitComma (c :: text) = (splitComma text).modifyHead (c :: ·) := by
  rw [splitComma, splitComma, splitOn_eq_splitOnP, splitOnP_cons_eq_if_modifyHead,
    if_neg (by simpa using hc), splitOn_eq_splitOnP]

namespace HttpRangeParser

/-- What is left when the loop ends. -/
def splitEnd (state : List Bytes × Bytes × Bool) : List Bytes :=
  if state.2.2 && !state.2.1.isEmpty then state.1 ++ [state.2.1] else state.1

/-- The parts that have characters, of which `current` begins the first one. -/
def nonemptyParts (current : Bytes) (parts : List Bytes) : List Bytes :=
  (parts.modifyHead (current ++ ·)).filter (· ≠ [])

theorem nonemptyParts_nil (parts : List Bytes) : nonemptyParts [] parts = parts.filter (· ≠ []) := by
  cases parts <;> rfl

theorem nonemptyParts_cons_nil (current : Bytes) (parts : List Bytes) :
    nonemptyParts current ([] :: parts) =
      (if current = [] then [] else [current]) ++ nonemptyParts [] parts := by
  rw [nonemptyParts_nil, nonemptyParts, modifyHead_cons, append_nil]
  cases current <;> rfl

theorem nonemptyParts_modifyHead :
    nonemptyParts current (parts.modifyHead (c :: ·)) = nonemptyParts (current ++ [c]) parts := by
  cases parts with
  | nil => rfl
  | cons part parts =>
  rw [nonemptyParts, nonemptyParts, modifyHead_cons, modifyHead_cons,
    modifyHead_cons, append_assoc, singleton_append]

/-- The flag says that the current part has characters. -/
theorem foldl_splitStep {text : Bytes} {ranges : List Bytes} {current : Bytes} :
    splitEnd (text.foldl splitStep (ranges, current, !current.isEmpty)) =
      ranges ++ nonemptyParts current (splitComma (text.filter fun c => !isSpace c)) := by
  induction text generalizing ranges current with
  | nil =>
    have hparts : splitComma [] = [[]] := by rw [splitComma, splitOn_eq_splitOnP, splitOnP_nil]
    rw [filter_nil, hparts, nonemptyParts_cons_nil]
    cases current with
    | nil => rw [if_pos rfl]; exact (append_nil ranges).symm
    | cons c current => rw [if_neg nofun]; rfl
  | cons c text ih =>
  rw [foldl_cons]
  rcases Classical.em (c = 0x2c) with rfl | hcomma
  · rw [filter_cons_of_pos (by decide), splitComma_cons_comma, nonemptyParts_cons_nil,
      ← append_assoc, ← ih]
    cases current with
    | nil => rw [if_pos rfl, append_nil]; rfl
    | cons c current => rw [if_neg nofun]; rfl
  have hstep : (c == 0x2c) = false := beq_eq_false_iff_ne.2 hcomma
  rcases hspace : isSpace c with _ | _
  · have hflag : (!(current ++ [c]).isEmpty) = true := by cases current <;> rfl
    rw [filter_cons_of_pos (by rw [hspace]; rfl), splitComma_cons hcomma,
      nonemptyParts_modifyHead, ← ih, hflag, splitStep, hstep, hspace]
    rfl
  rw [filter_cons_of_neg (by rw [hspace]; exact nofun), ← ih, splitStep, hstep, hspace]
  rfl

theorem splitRanges_eq (text : Bytes) :
    splitRanges text = (splitComma (text.filter fun c => !isSpace c)).filter (· ≠ []) := by
  rw [← nonemptyParts_nil]
  exact @foldl_splitStep text [] []

/-! ## One range -/

theorem parseUnsigned_iff :
    parseUnsigned text = some value ↔ ByteRangeSpec.number text = some value.toNat := by
  constructor
  · intro h
    rw [parseUnsigned] at h
    split at h
    · cases h
    split at h
    · next n hread =>
      obtain ⟨hall, hn, hle⟩ := Lib.fromChars_eq_ok_nil.1 hread
      obtain rfl : UInt64.ofNat n = value := Option.some.inj h
      rw [ByteRangeSpec.number, if_pos hall, hn, UInt64.toNat_ofNat_of_lt' (Nat.lt_succ_of_le hle)]
    cases h
  intro h
  rw [ByteRangeSpec.number] at h
  split at h
  · next hall =>
    have hle : value.toNat ≤ 2 ^ 64 - 1 := Nat.le_sub_one_of_lt value.toNat_lt
    have hread := Lib.fromChars_eq_ok_nil.2 ⟨hall, Option.some.inj h, hle⟩
    have hne : text.isEmpty = false := List.isEmpty_eq_false_iff.2 hall.1
    rw [parseUnsigned, if_neg (by rw [hne]; exact nofun), hread]
    exact congrArg some (UInt64.ofNat_toNat ..)
  cases h

theorem parseUnsigned_of_number (hnumber : ByteRangeSpec.number text = some n) (hlt : n < 2 ^ 64) :
    parseUnsigned text = some (UInt64.ofNat n) := by
  rw [parseUnsigned_iff, hnumber, UInt64.toNat_ofNat_of_lt' hlt]

/-- The range has the bytes that the text asks for, and is valid if there are any. -/
structure Serves (fileSize : UInt64) (text : Bytes) (range : HttpRange) : Prop where
  within : range.isValid = true → range.Within fileSize
  mem_iff : ∀ i, range.isValid = true ∧ i ∈ range.toInterval ↔
    ∃ spec, ByteRangeSpec.ofText text = some spec ∧ spec.Served fileSize.toNat i

variable {fileSize : UInt64} {text : Bytes}

theorem serves_none
    (h : ∀ spec, ByteRangeSpec.ofText text = some spec → ∀ i, ¬ spec.Served fileSize.toNat i) :
    Serves fileSize text {} := by
  refine ⟨nofun, fun i => ⟨?_, ?_⟩⟩
  · rintro ⟨hvalid, -⟩
    cases hvalid
  rintro ⟨spec, hspec, hi⟩
  exact absurd hi (h spec hspec i)

theorem serves_ofBounds (hspec : ByteRangeSpec.ofText text = some spec) (hle : s.toNat ≤ e.toNat)
    (hlt : e.toNat < fileSize.toNat)
    (h : ∀ i, spec.Served fileSize.toNat i ↔ s.toNat ≤ i ∧ i ≤ e.toNat) :
    Serves fileSize text (.ofBounds s e) := by
  have hwithin := HttpRange.within_ofBounds hle hlt
  refine ⟨fun _ => hwithin, fun i => ⟨?_, ?_⟩⟩
  · rintro ⟨-, hi⟩
    exact ⟨spec, hspec, (h i).2 hi⟩
  rintro ⟨spec', hspec', hi⟩
  obtain rfl : spec = spec' := Option.some.inj (hspec.symm.trans hspec')
  exact ⟨hwithin.isValid, (h i).1 hi⟩

theorem toNat_pred {n : UInt64} (h : 0 < n.toNat) : (n - 1).toNat = n.toNat - 1 :=
  UInt64.toNat_sub_of_le _ _ (UInt64.le_iff_toNat_le.2 h)

/-- A range whose end is cut off at the end of the file. -/
theorem firstLast_serves {first last : Bytes}
    (hspec : ByteRangeSpec.ofText text =
      match ByteRangeSpec.number first, ByteRangeSpec.number last with
      | some first, some last => some (.firstLast first last)
      | _, _ => none) :
    Serves fileSize text
      (match parseUnsigned first, parseUnsigned last with
      | some start, some last =>
        if start > last ∨ fileSize ≤ start then {}
        else .ofBounds start (if fileSize ≤ last then fileSize - 1 else last)
      | _, _ => {}) := by
  split
  · next start last hfirst hlast =>
    rw [parseUnsigned_iff.1 hfirst, parseUnsigned_iff.1 hlast] at hspec
    have hstart := start.toNat_lt
    have hfits := last.toNat_lt
    split
    · next hout =>
      apply serves_none
      intro spec hspec' i hi
      obtain rfl := Option.some.inj (hspec.symm.trans hspec')
      rw [ByteRangeSpec.served_firstLast] at hi
      rw [gt_iff_lt, UInt64.lt_iff_toNat_lt, UInt64.le_iff_toNat_le] at hout
      omega
    next hin =>
    rw [not_or, gt_iff_lt, UInt64.lt_iff_toNat_lt, UInt64.le_iff_toNat_le] at hin
    have hend : (if fileSize ≤ last then fileSize - 1 else last).toNat =
        min last.toNat (fileSize.toNat - 1) := by
      have hone : (fileSize - 1).toNat = fileSize.toNat - 1 := toNat_pred (by omega)
      split
      · next hclip =>
        rw [UInt64.le_iff_toNat_le] at hclip
        omega
      next hclip =>
      rw [UInt64.le_iff_toNat_le] at hclip
      omega
    apply serves_ofBounds hspec
    · rw [hend]
      omega
    · rw [hend]
      omega
    intro i
    rw [ByteRangeSpec.served_firstLast, hend]
    omega
  next hnone =>
  apply serves_none
  intro spec hspec' i hi
  rw [hspec] at hspec'
  split at hspec'
  · next hfirst hlast =>
    obtain rfl := Option.some.inj hspec'
    obtain ⟨⟨hfits, hfits'⟩, -⟩ := ByteRangeSpec.served_firstLast.1 hi
    exact hnone _ _ (parseUnsigned_of_number hfirst hfits) (parseUnsigned_of_number hlast hfits')
  cases hspec'

theorem from_serves {first : Bytes}
    (hspec : ByteRangeSpec.ofText text = (ByteRangeSpec.number first).map .«from») :
    Serves fileSize text
      (match parseUnsigned first with
      | none => {}
      | some start => if fileSize ≤ start then {} else .ofBounds start (fileSize - 1)) := by
  split
  · next hnone =>
    apply serves_none
    intro spec hspec' i hi
    obtain ⟨n, hfirst, rfl⟩ := Option.map_eq_some_iff.1 (hspec.symm.trans hspec')
    obtain ⟨hfits, -⟩ := ByteRangeSpec.served_from.1 hi
    rw [parseUnsigned_of_number hfirst hfits] at hnone
    cases hnone
  next start hfirst =>
  rw [parseUnsigned_iff.1 hfirst] at hspec
  have hfits := start.toNat_lt
  split
  · next hout =>
    apply serves_none
    intro spec hspec' i hi
    obtain rfl := Option.some.inj (hspec.symm.trans hspec')
    rw [ByteRangeSpec.served_from] at hi
    rw [UInt64.le_iff_toNat_le] at hout
    omega
  next hin =>
  rw [UInt64.le_iff_toNat_le] at hin
  have hone : (fileSize - 1).toNat = fileSize.toNat - 1 := toNat_pred (by omega)
  apply serves_ofBounds hspec
  · omega
  · omega
  intro i
  rw [ByteRangeSpec.served_from, hone]
  omega

theorem suffix_serves {last : Bytes} (hsize : fileSize ≠ 0)
    (hspec : ByteRangeSpec.ofText text = (ByteRangeSpec.number last).map .suffix) :
    Serves fileSize text
      (match parseUnsigned last with
      | none => {}
      | some suffix =>
        let suffix := if suffix = 0 ∨ fileSize < suffix then fileSize else suffix
        .ofBounds (fileSize - suffix) (fileSize - 1)) := by
  have hpos : 0 < fileSize.toNat := 
    Nat.pos_of_ne_zero fun hzero => hsize (UInt64.toNat_inj.1 hzero)
  have hone : (fileSize - 1).toNat = fileSize.toNat - 1 := toNat_pred hpos
  split
  · next hnone =>
    apply serves_none
    intro spec hspec' i hi
    obtain ⟨n, hlast, rfl⟩ := Option.map_eq_some_iff.1 (hspec.symm.trans hspec')
    obtain ⟨hfits, -⟩ := ByteRangeSpec.served_suffix.1 hi
    rw [parseUnsigned_of_number hlast hfits] at hnone
    cases hnone
  next suffix hlast =>
  rw [parseUnsigned_iff.1 hlast] at hspec
  have hfits := suffix.toNat_lt
  dsimp only
  split
  · next hwhole =>
    rw [← UInt64.toNat_inj, UInt64.lt_iff_toNat_lt, UInt64.toNat_zero] at hwhole
    have hstart : (fileSize - fileSize).toNat = 0 := by rw [UInt64.sub_self, UInt64.toNat_zero]
    apply serves_ofBounds hspec
    · omega
    · omega
    intro i
    rw [ByteRangeSpec.served_suffix, hstart, hone]
    omega
  next hpart =>
  rw [not_or, ← UInt64.toNat_inj, UInt64.lt_iff_toNat_lt, UInt64.toNat_zero] at hpart
  have hstart : (fileSize - suffix).toNat = fileSize.toNat - suffix.toNat :=
    UInt64.toNat_sub_of_le _ _ (UInt64.le_iff_toNat_le.2 (by omega))
  apply serves_ofBounds hspec
  · omega
  · omega
  intro i
  rw [ByteRangeSpec.served_suffix, hstart, hone]
  omega

theorem parseSingleRange_serves (text : Bytes) (fileSize : UInt64) :
    Serves fileSize text (parseSingleRange text fileSize) := by
  rw [parseSingleRange]
  split
  · next hzero =>
    apply serves_none
    intro spec _ i hi
    have hlt := hi.lt
    rw [hzero] at hlt
    exact absurd hlt (Nat.not_lt_zero _)
  next hsize =>
  dsimp only
  split
  · next hdash =>
    apply serves_none
    intro spec hspec
    rw [ByteRangeSpec.ofText, hdash] at hspec
    cases hspec
  next dash last hdash =>
  have hspec := ByteRangeSpec.ofText_of_dash hdash
  cases hfirst : text.takeWhile (· != 0x2d) with
  | nil =>
    rw [hfirst, if_pos rfl] at hspec
    cases last with
    | nil => exact serves_none fun spec hspec' => nomatch hspec.symm.trans hspec'
    | cons c last => exact suffix_serves hsize hspec
  | cons c first =>
  rw [hfirst, if_neg nofun] at hspec
  cases last with
  | nil =>
    rw [if_pos rfl] at hspec
    exact from_serves hspec
  | cons d last =>
  rw [if_neg nofun] at hspec
  exact firstLast_serves hspec

/-! ## Merging -/

theorem toNat_max (a b : UInt64) : (max a b).toNat = max a.toNat b.toNat := by
  show (if a ≤ b then b else a).toNat = max a.toNat b.toNat
  split
  · next hle => exact (Nat.max_eq_right (UInt64.le_iff_toNat_le.1 hle)).symm
  next hgt =>
  rw [UInt64.not_le] at hgt
  exact (Nat.max_eq_left (Nat.le_of_lt (UInt64.lt_iff_toNat_lt.1 hgt))).symm

theorem rangeLe_iff : rangeLe lhs rhs = true ↔ lhs.start.toNat < rhs.start.toNat ∨
      lhs.start.toNat = rhs.start.toNat ∧ lhs.last.toNat ≤ rhs.last.toNat := by
  rw [rangeLe]
  split
  · next hne =>
    rw [bne_iff_ne, ne_eq, ← UInt64.toNat_inj] at hne
    rw [decide_eq_true_eq, UInt64.lt_iff_toNat_lt]
    exact ⟨.inl, fun h => h.resolve_right fun heq => hne heq.1⟩
  next heq =>
  rw [bne_iff_ne, ne_eq, not_not, ← UInt64.toNat_inj] at heq
  rw [decide_eq_true_eq, UInt64.le_iff_toNat_le]
  omega

theorem sorted_insertionSort (ranges : List HttpRange) :
    (ranges.insertionSort (rangeLe · ·)).Pairwise fun lhs rhs => lhs.start.toNat ≤ rhs.start.toNat := by
  have htrans : IsTrans HttpRange (rangeLe · ·) := by
    constructor
    intro a b c hab hbc
    rw [rangeLe_iff] at hab hbc ⊢
    omega
  have htotal : Std.Total (α := HttpRange) (rangeLe · ·) := by
    constructor
    intro a b
    rw [rangeLe_iff, rangeLe_iff]
    omega
  apply (pairwise_insertionSort (rangeLe · ·) ranges).imp
  intro lhs rhs hle
  rw [rangeLe_iff] at hle
  omega

/-- The end of the last range is no largest number, so the position behind it is the next one. -/
theorem touches_iff {tail range : HttpRange} (htail : tail.Within fileSize) :
    (range.start ≤ tail.last ∨ (tail.last ≠ 0xFFFFFFFFFFFFFFFF ∧ range.start = tail.last + 1)) ↔
      range.toInterval.lo ≤ tail.toInterval.hi + 1 := by
  have hlt := htail.last_lt
  have hsize := fileSize.toNat_lt
  have hnext : (tail.last + 1).toNat = tail.last.toNat + 1 := by
    rw [UInt64.toNat_add]
    exact Nat.mod_eq_of_lt (by
      show tail.last.toNat + 1 < 2 ^ 64
      omega)
  have hmax : tail.last ≠ 0xFFFFFFFFFFFFFFFF := by
    intro heq
    rw [heq] at hlt
    exact absurd (Nat.lt_of_le_of_lt (Nat.succ_le_of_lt hlt) hsize) (by decide)
  rw [UInt64.le_iff_toNat_le, ← UInt64.toNat_inj, hnext]
  constructor
  · rintro (hle | ⟨-, heq⟩)
    · exact Nat.le_succ_of_le hle
    exact Nat.le_of_eq heq
  intro hle
  rcases Nat.lt_or_eq_of_le hle with hlt | heq
  · exact .inl (Nat.le_of_lt_succ hlt)
  exact .inr ⟨hmax, heq⟩

theorem mergeStep_spec {range : HttpRange}
    (hmerged : ∀ tail ∈ merged, tail.Within fileSize) (hrange : range.Within fileSize) :
    (∀ r ∈ mergeStep merged range, r.Within fileSize) ∧
      (mergeStep merged range).map HttpRange.toInterval =
        Lib.mergeStep (merged.map HttpRange.toInterval) range.toInterval := by
  rcases eq_nil_or_concat' merged with rfl | ⟨before, tail, rfl⟩
  · refine ⟨fun r hr => ?_, rfl⟩
    rw [mergeStep, getLast?_nil, mem_singleton] at hr
    exact hr ▸ hrange
  have htail := hmerged tail (mem_append_right _ (mem_singleton_self _))
  have hbefore : ∀ r ∈ before, r.Within fileSize :=
    fun r hr => hmerged r (mem_append_left _ hr)
  rw [mergeStep, Lib.mergeStep, map_append, map_singleton, getLast?_concat, getLast?_concat]
  dsimp only
  split
  · next htouch =>
    have hmax := toNat_max tail.last range.last
    have hstart := htail.start_le
    have hlast := htail.last_lt
    have hlast' := hrange.last_lt
    have hle : tail.start.toNat ≤ (max tail.last range.last).toNat := by omega
    have hlt : (max tail.last range.last).toNat < fileSize.toNat := by omega
    rw [if_pos ((touches_iff htail).1 htouch), dropLast_concat, dropLast_concat]
    refine ⟨fun r hr => ?_, ?_⟩
    · rcases List.mem_append.1 hr with hr | hr
      · exact hbefore r hr
      rw [mem_singleton] at hr
      exact hr ▸ HttpRange.within_ofBounds hle hlt
    rw [map_append, map_singleton]
    exact congrArg (fun hi => _ ++ [(⟨tail.start.toNat, hi⟩ : Lib.Interval)]) hmax
  next hapart =>
  rw [if_neg (mt (touches_iff htail).2 hapart)]
  refine ⟨fun r hr => ?_, ?_⟩
  · rcases List.mem_append.1 hr with hr | hr
    · exact hmerged r hr
    rw [mem_singleton] at hr
    exact hr ▸ hrange
  rw [map_append, map_append, map_singleton, map_singleton]

theorem foldl_mergeStep_spec {merged ranges : List HttpRange}
    (hmerged : ∀ tail ∈ merged, tail.Within fileSize) (hranges : ∀ r ∈ ranges, r.Within fileSize) :
    (∀ r ∈ ranges.foldl mergeStep merged, r.Within fileSize) ∧
      (ranges.foldl mergeStep merged).map HttpRange.toInterval =
        (ranges.map HttpRange.toInterval).foldl Lib.mergeStep (merged.map HttpRange.toInterval) := by
  induction ranges generalizing merged with
  | nil => exact ⟨hmerged, rfl⟩
  | cons range ranges ih =>
  obtain ⟨hrange, hranges⟩ := List.forall_mem_cons.1 hranges
  obtain ⟨hstep, hmap⟩ := mergeStep_spec hmerged hrange
  rw [map_cons, foldl_cons, foldl_cons, ← hmap]
  exact ih hstep hranges

variable {ranges : List HttpRange}

theorem mergeRanges_spec (h : ∀ r ∈ ranges, r.Within fileSize) :
    (∀ r ∈ mergeRanges ranges, r.Within fileSize) ∧
      ((mergeRanges ranges).map HttpRange.toInterval).Pairwise Lib.Interval.Apart ∧
      ∀ i, Lib.Covers ((mergeRanges ranges).map HttpRange.toInterval) i ↔
        Lib.Covers (ranges.map HttpRange.toInterval) i := by
  have hsorted : ((ranges.insertionSort (rangeLe · ·)).map HttpRange.toInterval).Pairwise
      fun first second => first.lo ≤ second.lo := List.pairwise_map.2 (sorted_insertionSort ranges)
  have hwithin : ∀ r ∈ ranges.insertionSort (rangeLe · ·), r.Within fileSize :=
    fun r hr => h r ((mem_insertionSort _).1 hr)
  obtain ⟨happart, hcovers⟩ := Lib.foldl_mergeStep hsorted
  obtain ⟨hmerged, hmap⟩ := @foldl_mergeStep_spec fileSize [] _ nofun hwithin
  rw [mergeRanges, hmap]
  refine ⟨hmerged, happart, fun i => (hcovers i).trans ?_⟩
  exact Lib.covers_of_perm ((perm_insertionSort _ ranges).map _)

/-! ## The aggregate size -/

/-- The sum is below the bound at every step, so it does not wrap around. -/
theorem sum_le_of_loop (htotal : total.toNat ≤ kMaxMultipartBodyBytes.toNat)
    (h : isAggregateRangeSizeAllowed.loop total ranges = true) :
    total.toNat + (ranges.map fun r => r.length.toNat).sum ≤ kMaxMultipartBodyBytes.toNat := by
  induction ranges generalizing total with
  | nil => exact htotal
  | cons range ranges ih =>
  rw [isAggregateRangeSizeAllowed.loop] at h
  split at h
  · cases h
  next hfits =>
  rw [not_or, UInt64.lt_iff_toNat_lt, UInt64.lt_iff_toNat_lt, Nat.not_lt, Nat.not_lt] at hfits
  obtain ⟨hlen, hsum⟩ := hfits
  rw [UInt64.toNat_sub_of_le _ _ (UInt64.le_iff_toNat_le.2 hlen)] at hsum
  have hbound : kMaxMultipartBodyBytes.toNat < 2 ^ 64 := kMaxMultipartBodyBytes.toNat_lt
  have hadd : (total + range.length).toNat = total.toNat + range.length.toNat := by
    rw [UInt64.toNat_add]
    exact Nat.mod_eq_of_lt (by
      show total.toNat + range.length.toNat < 2 ^ 64
      omega)
  have hrest := @ih (total + range.length) (by omega) h
  rw [map_cons, sum_cons]
  omega

/-! ## The whole header -/

theorem exists_strippedSpecs {P : ByteRangeSpec → Prop} :
    (∃ spec ∈ strippedSpecs rangeHeader, P spec) ↔
      ∃ text ∈ splitRanges (rangeHeader.drop (ascii "bytes=").length),
        ∃ spec, ByteRangeSpec.ofText text = some spec ∧ P spec := by
  rw [splitRanges_eq]
  constructor
  · rintro ⟨spec, hmem, hspec⟩
    obtain ⟨text, htext, hread⟩ := List.mem_filterMap.1 hmem
    have hne : text ≠ [] := by
      rintro rfl
      cases hread
    exact ⟨text, List.mem_filter.2 ⟨htext, decide_eq_true hne⟩, spec, hread, hspec⟩
  rintro ⟨text, htext, spec, hread, hspec⟩
  exact ⟨spec, List.mem_filterMap.2 ⟨text, (List.mem_filter.1 htext).1, hread⟩, hspec⟩

variable {texts : List Bytes}

/-- The valid ones among the ranges of the parts have the bytes that the parts ask for. -/
theorem covers_parsed :
    Lib.Covers (((texts.map (parseSingleRange · fileSize)).filter HttpRange.isValid).map
        HttpRange.toInterval) i ↔ ∃ text ∈ texts, ∃ spec, ByteRangeSpec.ofText text = some spec ∧
        spec.Served fileSize.toNat i := by
  constructor
  · rintro ⟨interval, hmem, hi⟩
    obtain ⟨range, hrange, rfl⟩ := List.mem_map.1 hmem
    obtain ⟨hmem, hvalid⟩ := List.mem_filter.1 hrange
    obtain ⟨text, htext, rfl⟩ := List.mem_map.1 hmem
    exact ⟨text, htext, ((parseSingleRange_serves text fileSize).mem_iff i).1 ⟨hvalid, hi⟩⟩
  rintro ⟨text, htext, hspec⟩
  obtain ⟨hvalid, hi⟩ := ((parseSingleRange_serves text fileSize).mem_iff i).2 hspec
  have hmem : parseSingleRange text fileSize ∈ texts.map (parseSingleRange · fileSize) :=
    mem_map_of_mem htext
  exact ⟨_, mem_map_of_mem (List.mem_filter.2 ⟨hmem, hvalid⟩), hi⟩

theorem within_parsed :
    ∀ r ∈ (texts.map (parseSingleRange · fileSize)).filter HttpRange.isValid,
      r.Within fileSize := by
  intro r hr
  obtain ⟨hmem, hvalid⟩ := List.mem_filter.1 hr
  obtain ⟨text, -, rfl⟩ := List.mem_map.1 hmem
  exact (parseSingleRange_serves text fileSize).within hvalid

/-- The ranges answer a header: they lie inside the file with their lengths, each begins more than one
byte behind the one before, several of them are small together, and they have the bytes of the specs. -/
structure Resolved (rangeHeader : Bytes) (fileSize : UInt64) (ranges : List HttpRange) : Prop where
  unit : ascii "bytes=" <+: rangeHeader
  within : ∀ r ∈ ranges, r.Within fileSize
  apart : ranges.Pairwise fun r r' => r.last.toNat + 1 < r'.start.toNat
  size : ranges.length = 1 ∨
    (ranges.map fun r => r.length.toNat).sum ≤ kMaxMultipartBodyBytes.toNat
  covers : ∀ i, (∃ r ∈ ranges, r.start.toNat ≤ i ∧ i ≤ r.last.toNat) ↔
    ∃ spec ∈ strippedSpecs rangeHeader, spec.Served fileSize.toNat i

theorem covers_toInterval : Lib.Covers (ranges.map HttpRange.toInterval) i ↔
      ∃ r ∈ ranges, r.start.toNat ≤ i ∧ i ≤ r.last.toNat := by
  constructor
  · rintro ⟨interval, hmem, hi⟩
    obtain ⟨r, hr, rfl⟩ := List.mem_map.1 hmem
    exact ⟨r, hr, hi⟩
  rintro ⟨r, hr, hi⟩
  exact ⟨r.toInterval, mem_map_of_mem hr, hi⟩

theorem resolved_of_single {rangeHeader : Bytes} (hunit : ascii "bytes=" <+: rangeHeader)
    (hsplit : splitRanges (rangeHeader.drop (ascii "bytes=").length) = [text])
    (hvalid : (parseSingleRange text fileSize).isValid = true) :
    Resolved rangeHeader fileSize [parseSingleRange text fileSize] := by
  have hserves := parseSingleRange_serves text fileSize
  refine ⟨hunit, fun r hr => ?_, pairwise_singleton _ _, .inl rfl, fun i => ?_⟩
  · rw [mem_singleton] at hr
    exact hr ▸ hserves.within hvalid
  rw [exists_strippedSpecs, hsplit]
  constructor
  · rintro ⟨r, hr, hi⟩
    rw [mem_singleton] at hr
    obtain rfl := hr
    exact ⟨text, mem_singleton_self _, (hserves.mem_iff i).1 ⟨hvalid, hi⟩⟩
  rintro ⟨text', htext, hspec⟩
  rw [mem_singleton] at htext
  obtain rfl := htext
  exact ⟨_, mem_singleton_self _, ((hserves.mem_iff i).2 hspec).2⟩

theorem resolved_of_merged {rangeHeader : Bytes} (hunit : ascii "bytes=" <+: rangeHeader)
    (hsplit : splitRanges (rangeHeader.drop (ascii "bytes=").length) = texts)
    (hsize : isAggregateRangeSizeAllowed (mergeRanges ((texts.map (parseSingleRange · fileSize)).filter HttpRange.isValid)) = true)
    :
    Resolved rangeHeader fileSize (mergeRanges
      ((texts.map (parseSingleRange · fileSize)).filter HttpRange.isValid)) := by
  obtain ⟨hwithin, happart, hcovers⟩ := mergeRanges_spec (@within_parsed fileSize texts)
  refine ⟨hunit, hwithin, List.pairwise_map.1 happart, .inr ?_, fun i => ?_⟩
  · have hsum := sum_le_of_loop (Nat.zero_le _) hsize
    rw [UInt64.toNat_zero, Nat.zero_add] at hsum
    exact hsum
  rw [← covers_toInterval, hcovers, covers_parsed, exists_strippedSpecs, hsplit]

/-- A valid result answers the header. -/
theorem resolved_of_parse {boundary rangeHeader : Bytes} {fileSize : UInt64}
    (h : (parse boundary rangeHeader fileSize).isValid = true) :
    Resolved rangeHeader fileSize (parse boundary rangeHeader fileSize).ranges := by
  generalize hparse : parse boundary rangeHeader fileSize = result at h ⊢
  rw [parse] at hparse
  dsimp only at hparse
  split at hparse
  · obtain rfl := hparse
    cases h
  next hbytes =>
  rw [Bool.or_eq_true, not_or, bne_iff_ne, ne_eq, not_not] at hbytes
  have hunit : ascii "bytes=" <+: rangeHeader := hbytes.2 ▸ take_prefix _ _
  split at hparse
  · obtain rfl := hparse
    cases h
  split at hparse
  · obtain rfl := hparse
    cases h
  · next text hsplit =>
    split at hparse
    · next hvalid =>
      obtain rfl := hparse
      exact resolved_of_single hunit hsplit hvalid
    obtain rfl := hparse
    cases h
  split at hparse
  · obtain rfl := hparse
    cases h
  split at hparse
  · obtain rfl := hparse
    cases h
  split at hparse
  · obtain rfl := hparse
    cases h
  next hsize =>
  rw [Bool.or_eq_true, not_or, Bool.not_eq_true', Bool.not_eq_false] at hsize
  split at hparse
  · obtain rfl := hparse
    exact resolved_of_merged hunit rfl hsize.2
  obtain rfl := hparse
  exact resolved_of_merged hunit rfl hsize.2

theorem resolved_overlapping :
    Resolved (ascii "bytes=0-4,2-6,9-") 10 (parse [] (ascii "bytes=0-4,2-6,9-") 10).ranges :=
  resolved_of_parse (by decide +kernel)

/-- A suffix of no bytes has the whole file; a spec with a larger number than 64 bits hold is left out
beside another one; white space inside a number is no end of it. -/
theorem covers_not_written :
    (((parse [] (ascii "bytes=-0") 10).isValid = true ∧
        (parse [] (ascii "bytes=-0") 10).ranges = [.ofBounds 0 9]) ∧
      ¬ ∃ spec ∈ writtenSpecs (ascii "bytes=-0"), spec.Covers 10 0) ∧
    (((parse [] (ascii "bytes=0-99999999999999999999,5-6") 10).isValid = true ∧
        (parse [] (ascii "bytes=0-99999999999999999999,5-6") 10).ranges = [.ofBounds 5 6]) ∧
      ∃ spec ∈ writtenSpecs (ascii "bytes=0-99999999999999999999,5-6"), spec.Covers 10 0) ∧
    (((parse [] (ascii "bytes=1 0-2 0") 30).isValid = true ∧
        (parse [] (ascii "bytes=1 0-2 0") 30).ranges = [.ofBounds 10 20]) ∧
      ¬ ∃ spec ∈ writtenSpecs (ascii "bytes=1 0-2 0"), spec.Covers 30 10) := by
  decide +kernel

end HttpRangeParser

end Galay.Http
