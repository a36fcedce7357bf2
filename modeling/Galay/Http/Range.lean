import Galay.Http.Header
import Mathlib.Data.List.Sort

/-!
# Range requests (`galay-http/server/http_range.h`)

Positions are `uint64_t`. `boundary` stands for what `RangeParseResult::generateBoundary` makes of its
counter and the clock.
-/

namespace Galay.Http

/-- The constructor computes the length. -/
structure HttpRange where
  start : UInt64 := 0
  last : UInt64 := 0
  length : UInt64 := 0
  deriving DecidableEq, Repr

namespace HttpRange

def ofBounds (s e : UInt64) : HttpRange := { start := s, last := e, length := e - s + 1 }

def isValid (range : HttpRange) : Bool := range.start ≤ range.last && 0 < range.length

end HttpRange

inductive RangeType
  | SINGLE_RANGE
  | MULTIPLE_RANGES
  | INVALID
  deriving DecidableEq, Repr

structure RangeParseResult where
  ranges : List HttpRange := []
  boundary : Bytes := []
  type : RangeType := .INVALID
  deriving DecidableEq, Repr

def RangeParseResult.isValid (result : RangeParseResult) : Bool :=
  result.type != .INVALID && !result.ranges.isEmpty

namespace HttpRangeParser

def kMaxMultipartRanges : Nat := 16
def kMaxMultipartBodyBytes : UInt64 := 8 * 1024 * 1024

def parseUnsigned (text : Bytes) : Option UInt64 :=
  if text.isEmpty then none
  else
    match Lib.fromChars 10 (2 ^ 64 - 1) text with
    | (.ok value, []) => some (UInt64.ofNat value)
    | _ => none

/-- The order of the sort: by the start, then by the end. -/
def rangeLe (lhs rhs : HttpRange) : Bool :=
  if lhs.start != rhs.start then lhs.start < rhs.start else lhs.last ≤ rhs.last

def mergeStep (merged : List HttpRange) (range : HttpRange) : List HttpRange :=
  match merged.getLast? with
  | none => [range]
  | some tail =>
    if range.start ≤ tail.last ∨ (tail.last ≠ 0xFFFFFFFFFFFFFFFF ∧ range.start = tail.last + 1) then
      let last := max tail.last range.last
      merged.dropLast ++ [{ tail with last := last, length := last - tail.start + 1 }]
    else merged ++ [range]

def mergeRanges (ranges : List HttpRange) : List HttpRange :=
  (ranges.insertionSort (rangeLe · ·)).foldl mergeStep []

def isAggregateRangeSizeAllowed (ranges : List HttpRange) : Bool :=
  let rec loop (total : UInt64) : List HttpRange → Bool
    | [] => true
    | range :: ranges =>
      if kMaxMultipartBodyBytes < range.length ∨ kMaxMultipartBodyBytes - range.length < total then
        false
      else loop (total + range.length) ranges
  loop 0 ranges

/-- One character of the loop: the ranges, the current one and whether there is one. -/
def splitStep (state : List Bytes × Bytes × Bool) (c : UInt8) : List Bytes × Bytes × Bool :=
  let (ranges, current, inRange) := state
  if c == 0x2c then
    if inRange then (ranges ++ [current], [], false) else (ranges, current, inRange)
  else if !isSpace c then (ranges, current ++ [c], true)
  else (ranges, current, inRange)

def splitRanges (rangesStr : Bytes) : List Bytes :=
  let (ranges, current, inRange) := rangesStr.foldl splitStep ([], [], false)
  if inRange && !current.isEmpty then ranges ++ [current] else ranges

def parseSingleRange (rangeStr : Bytes) (fileSize : UInt64) : HttpRange :=
  if fileSize = 0 then {}
  else
    let startStr := rangeStr.takeWhile (· != 0x2d)
    match rangeStr.dropWhile (· != 0x2d) with
    | [] => {}
    | _ :: endStr =>
      if !startStr.isEmpty && !endStr.isEmpty then
        match parseUnsigned startStr, parseUnsigned endStr with
        | some start, some last =>
          if start > last ∨ fileSize ≤ start then {}
          else .ofBounds start (if fileSize ≤ last then fileSize - 1 else last)
        | _, _ => {}
      else if !startStr.isEmpty && endStr.isEmpty then
        match parseUnsigned startStr with
        | none => {}
        | some start => if fileSize ≤ start then {} else .ofBounds start (fileSize - 1)
      else if startStr.isEmpty && !endStr.isEmpty then
        match parseUnsigned endStr with
        | none => {}
        | some suffix =>
          let suffix := if suffix = 0 ∨ fileSize < suffix then fileSize else suffix
          .ofBounds (fileSize - suffix) (fileSize - 1)
      else {}

def parse (boundary : Bytes) (rangeHeader : Bytes) (fileSize : UInt64) : RangeParseResult :=
  let bytesText := ascii "bytes="
  if rangeHeader.isEmpty || rangeHeader.take bytesText.length != bytesText then {}
  else
    let rangesStr := rangeHeader.drop bytesText.length
    if rangesStr.isEmpty then {}
    else
      match splitRanges rangesStr with
      | [] => {}
      | [text] =>
        let range := parseSingleRange text fileSize
        if range.isValid then { ranges := [range], type := .SINGLE_RANGE } else {}
      | ranges =>
        if kMaxMultipartRanges < ranges.length then {}
        else
          let parsedRanges := (ranges.map (parseSingleRange · fileSize)).filter HttpRange.isValid
          if parsedRanges.isEmpty then {}
          else
            let merged := mergeRanges parsedRanges
            if merged.isEmpty || !isAggregateRangeSizeAllowed merged then {}
            else if merged.length = 1 then { ranges := merged, type := .SINGLE_RANGE }
            else { ranges := merged, boundary := boundary, type := .MULTIPLE_RANGES }

end HttpRangeParser

end Galay.Http
