import Galay.Redis.Protocol

/-!
# Lines of a reply, and the equation of the parser

The three searches for a line end find the first one. A reply is read from its parts, which are
shorter than it.
-/

namespace Galay.Redis

open List
open Galay.Lib

/-! ## Line ends -/

variable {data text rest : Bytes} {i j p : Nat}

theorem isCrlfAt_iff : isCrlfAt data i ↔ data[i]? = some 0x0D ∧ data[i + 1]? = some 0x0A :=
  decide_eq_true_iff

theorem lt_length_of_isCrlfAt (h : isCrlfAt data i) : i + 1 < data.length := by
  obtain ⟨hlf, -⟩ := List.getElem?_eq_some_iff.1 (isCrlfAt_iff.1 h).2
  exact hlf

theorem isCrlfAt_append (hi : i + 1 < data.length) :
    isCrlfAt (data ++ rest) i = isCrlfAt data i := by
  unfold isCrlfAt
  rw [getElem?_append_left (by omega), getElem?_append_left hi]

theorem isCrlfAt_cons (marker : UInt8) : isCrlfAt (marker :: data) (i + 1) = isCrlfAt data i := by
  simp only [isCrlfAt, getElem?_cons_succ]

/-- The first line end from `p` on. -/
structure FirstCrlf (data : Bytes) (p i : Nat) : Prop where
  le : p ≤ i
  here : isCrlfAt data i
  first : ∀ j, p ≤ j → j < i → ¬ isCrlfAt data j

theorem FirstCrlf.unique (hi : FirstCrlf data p i) (hj : FirstCrlf data p j) : i = j := by
  rcases Nat.lt_trichotomy i j with hlt | heq | hlt
  · exact absurd hi.here (hj.first i hi.le hlt)
  · exact heq
  exact absurd hj.here (hi.first j hj.le hlt)

theorem firstCrlf_of_find (h : (List.range' p n).find? (isCrlfAt data) = some i) :
    FirstCrlf data p i := by
  rw [find?_range'_eq_some] at h
  obtain ⟨hhere, hmem, hfirst⟩ := h
  exact ⟨(List.mem_range'_1.1 hmem).1, hhere, fun j hle hlt => by simpa using hfirst j hle hlt⟩

theorem firstCrlf_findCRLFSimd_iff (blocks : Nat) :
    FirstCrlf data (findCRLFSimd data blocks p) i ↔ FirstCrlf data p i := by
  induction blocks generalizing p with
  | zero => exact Iff.rfl
  | succ blocks ih =>
  rw [findCRLFSimd]
  split
  · next candidate hfind =>
    have hfirst := firstCrlf_of_find hfind
    have hself : FirstCrlf data candidate candidate :=
      ⟨Nat.le_refl _, hfirst.here, fun j hle hlt => absurd hle (Nat.not_le_of_lt hlt)⟩
    constructor
    · intro h
      rw [h.unique hself]
      exact hfirst
    intro h
    rw [h.unique hfirst]
    exact hself
  next hfind =>
  rw [find?_range'_eq_none] at hfind
  have hnone : ∀ j, p ≤ j → j < p + 16 → ¬ isCrlfAt data j := fun j hle hlt => by
    simpa using hfind j hle hlt
  rw [ih]
  constructor
  · intro h
    refine ⟨Nat.le_trans (Nat.le_add_right _ _) h.le, h.here, fun j hle hlt => ?_⟩
    rcases Nat.lt_or_ge j (p + 16) with hin | hout
    · exact hnone j hle hin
    exact h.first j hout hlt
  intro h
  refine ⟨Nat.le_of_not_lt fun hlt => hnone i h.le hlt h.here, h.here, ?_⟩
  exact fun j hle hlt => h.first j (Nat.le_trans (Nat.le_add_right _ _) hle) hlt

theorem memchrCRLF_eq_some_iff (fuel : Nat) (hfuel : data.length ≤ p + fuel) :
    memchrCRLF data fuel p = some i ↔ FirstCrlf data p i := by
  induction fuel generalizing p with
  | zero =>
    refine ⟨nofun, fun h => ?_⟩
    have hlt := lt_length_of_isCrlfAt h.here
    have hle := h.le
    omega
  | succ fuel ih =>
  rw [memchrCRLF]
  split
  · next hlt =>
    split
    · next hfind =>
      refine ⟨nofun, fun h => ?_⟩
      have hi := lt_length_of_isCrlfAt h.here
      rw [find?_range'_eq_none] at hfind
      have hle := h.le
      have hcr := hfind i hle (by omega)
      exact absurd (isCrlfAt_iff.1 h.here).1 (by simpa using hcr)
    next candidate hfind =>
    rw [find?_range'_eq_some] at hfind
    obtain ⟨hcr, hmem, hfirst⟩ := hfind
    have hle := (List.mem_range'_1.1 hmem).1
    have hbefore : ∀ j, p ≤ j → j < candidate → ¬ isCrlfAt data j := fun j hj hlt h =>
      absurd (isCrlfAt_iff.1 h).1 (by simpa using hfirst j hj hlt)
    split
    · next hlf =>
      have hthis : FirstCrlf data p candidate :=
        ⟨hle, isCrlfAt_iff.2 ⟨of_decide_eq_true hcr, hlf⟩, hbefore⟩
      exact ⟨fun h => Option.some.inj h ▸ hthis, fun h => congrArg some (hthis.unique h)⟩
    next hlf =>
    have hnot : ¬ isCrlfAt data candidate := fun h => hlf (isCrlfAt_iff.1 h).2
    rw [ih (by omega)]
    constructor
    · intro h
      refine ⟨by have := h.le; omega, h.here, fun j hj hlt => ?_⟩
      rcases Nat.lt_trichotomy j candidate with hlt' | rfl | hgt
      · exact hbefore j hj hlt'
      · exact hnot
      exact h.first j hgt hlt
    intro h
    refine ⟨?_, h.here, fun j hj hlt => h.first j (by omega) hlt⟩
    rcases Nat.lt_trichotomy i candidate with hlt' | rfl | hgt
    · exact absurd h.here (hbefore i h.le hlt')
    · exact absurd h.here hnot
    exact hgt
  next hlt =>
  refine ⟨nofun, fun h => ?_⟩
  have hi := lt_length_of_isCrlfAt h.here
  have hle := h.le
  omega

theorem findCRLF_eq_some_iff : findCRLF data p = some i ↔ FirstCrlf data p i := by
  unfold findCRLF
  split
  · next hshort =>
    refine ⟨nofun, fun h => ?_⟩
    have hi := lt_length_of_isCrlfAt h.here
    have hle := h.le
    omega
  split
  · refine ⟨firstCrlf_of_find, fun h => ?_⟩
    have hi := lt_length_of_isCrlfAt h.here
    have hle := h.le
    rw [find?_range'_eq_some]
    refine ⟨h.here, List.mem_range'_1.2 ⟨hle, by omega⟩, fun j hj hlt => ?_⟩
    simpa using h.first j hj hlt
  rw [memchrCRLF_eq_some_iff _ (Nat.le_add_left _ _), firstCrlf_findCRLFSimd_iff]

/-! ## Lines -/

def CRLF : Bytes := [0x0D, 0x0A]

/-- A text that a line end can follow: the first line end is the one behind it. -/
def Plain (text : Bytes) : Prop := ∀ j < text.length, ¬ isCrlfAt (text ++ CRLF) j

theorem isCrlfAt_line (text rest : Bytes) : isCrlfAt (text ++ CRLF ++ rest) text.length := by
  rw [isCrlfAt_iff, append_assoc, getElem?_append_right (Nat.le_refl _),
    getElem?_append_right (Nat.le_add_right _ _)]
  simp [CRLF]

theorem findCRLF_line (marker : UInt8) (htext : Plain text) (rest : Bytes) :
    findCRLF (marker :: (text ++ CRLF ++ rest)) 1 = some (text.length + 1) := by
  rw [findCRLF_eq_some_iff]
  refine ⟨Nat.le_add_left _ _, ?_, fun j hle hlt => ?_⟩
  · rw [isCrlfAt_cons]
    exact isCrlfAt_line text rest
  obtain ⟨j, rfl⟩ := Nat.exists_eq_add_of_le' hle
  have hj : j < text.length := Nat.lt_of_succ_lt_succ hlt
  have hin : j + 1 < (text ++ CRLF).length := by
    rw [length_append]
    simp [CRLF]
    omega
  rw [isCrlfAt_cons, isCrlfAt_append hin]
  exact htext j hj

/-- A line that is cut has no end. -/
theorem findCRLF_cut (htext : Plain text)
    (hcut : cut ++ rest = marker :: (text ++ CRLF)) (hrest : rest ≠ []) :
    findCRLF cut 1 = none := by
  rw [Option.eq_none_iff_forall_ne_some]
  intro i hi
  have hfirst := findCRLF_eq_some_iff.1 hi
  have hlt := lt_length_of_isCrlfAt hfirst.here
  have hlen := congrArg List.length hcut
  have hpos := List.length_pos_iff.2 hrest
  have hcrlf : CRLF.length = 2 := rfl
  rw [length_append, length_cons, length_append] at hlen
  have hhere : isCrlfAt (marker :: (text ++ CRLF)) i := by
    rw [← hcut, isCrlfAt_append hlt]
    exact hfirst.here
  obtain ⟨j, rfl⟩ := Nat.exists_eq_add_of_le' hfirst.le
  rw [isCrlfAt_cons] at hhere
  exact htext j (by omega) hhere

theorem split_of_isCrlfAt (h : isCrlfAt data i) :
    data = data.take i ++ CRLF ++ data.drop (i + 2) := by
  obtain ⟨hcr, hlf⟩ := isCrlfAt_iff.1 h
  obtain ⟨hi, hcr⟩ := List.getElem?_eq_some_iff.1 hcr
  obtain ⟨hi', hlf⟩ := List.getElem?_eq_some_iff.1 hlf
  rw [CRLF, append_assoc, ← hcr, ← hlf]
  simp only [cons_append, nil_append]
  rw [getElem_cons_drop, getElem_cons_drop, take_append_drop]

theorem isCrlfAt_drop (offset : Nat) :
    isCrlfAt (data.drop offset) i = isCrlfAt data (offset + i) := by
  simp only [isCrlfAt, getElem?_drop, Nat.add_assoc]

/-- A line end that was found ends a line. -/
theorem line_of_findCRLF (h : findCRLF (marker :: data) 1 = some i) :
    ∃ text rest, Plain text ∧ data = text ++ CRLF ++ rest ∧ i = text.length + 1 := by
  obtain ⟨hle, hhere, hfirst⟩ := findCRLF_eq_some_iff.1 h
  obtain ⟨i, rfl⟩ := Nat.exists_eq_add_of_le' hle
  rw [isCrlfAt_cons] at hhere
  have hlt := lt_length_of_isCrlfAt hhere
  have hsplit := split_of_isCrlfAt hhere
  have hlen : (data.take i).length = i := length_take_of_le (by omega)
  refine ⟨data.take i, data.drop (i + 2), fun j hj hat => ?_, hsplit, by rw [hlen]⟩
  have hj' : j + 1 < (data.take i ++ CRLF).length := lt_length_of_isCrlfAt hat
  have hextend : isCrlfAt (data.take i ++ CRLF ++ data.drop (i + 2)) j =
      isCrlfAt (data.take i ++ CRLF) j := isCrlfAt_append hj'
  rw [← hextend, ← hsplit] at hat
  refine hfirst (j + 1) (Nat.le_add_left _ _) (by omega) ?_
  rw [isCrlfAt_cons]
  exact hat

/-! ## The equation of the parser -/

section Equation

variable {δ : Type} {strtod : Bytes → Strtod δ} {parse parse' : Bytes → ParseResult δ}

theorem lt_of_findCRLF (h : findCRLF data 1 = some i) : 1 ≤ i ∧ i + 2 ≤ data.length := by
  have hfirst := findCRLF_eq_some_iff.1 h
  exact ⟨hfirst.le, lt_length_of_isCrlfAt hfirst.here⟩

theorem lt_of_parseIntegerLine (h : parseIntegerLine data = .ok (i, value)) :
    0 < i ∧ i ≤ data.length := by
  unfold parseIntegerLine at h
  split at h
  · cases h
  next crlfPos hcrlf =>
  have hlt := lt_of_findCRLF hcrlf
  split at h
  · cases h
  cases h
  omega

theorem parseElements_congr {count : Nat}
    (h : ∀ data' : Bytes, data'.length ≤ data.length → parse data' = parse' data') :
    parseElements parse count data = parseElements parse' count data := by
  induction count generalizing data with
  | zero => rfl
  | succ count ih =>
  rw [parseElements, parseElements, h data (Nat.le_refl _)]
  split
  · rfl
  cases parse' data with
  | error error => rfl
  | ok result =>
  simp only
  rw [ih fun data' hle => h data' (Nat.le_trans hle (drop_sublist ..).length_le)]

/-- The keys and values of a map are elements in a row. -/
def pairUp : List (RedisReply δ) → List (RedisReply δ × RedisReply δ)
  | key :: value :: elements => (key, value) :: pairUp elements
  | _ => []

theorem parsePairs_eq (count : Nat) (data : Bytes) :
    parsePairs parse count data =
      (parseElements parse (2 * count) data).map fun (consumed, elements) =>
        (consumed, pairUp elements) := by
  induction count generalizing data with
  | zero => rfl
  | succ count ih =>
  rw [parsePairs, show 2 * (count + 1) = 2 * count + 1 + 1 from rfl, parseElements]
  split
  · rfl
  cases parse data with
  | error error => rfl
  | ok result =>
  obtain ⟨keyConsumed, key⟩ := result
  simp only
  rw [parseElements]
  split
  · rfl
  cases parse (data.drop keyConsumed) with
  | error error => rfl
  | ok result =>
  obtain ⟨valueConsumed, value⟩ := result
  simp only [ih]
  cases parseElements parse (2 * count) ((data.drop keyConsumed).drop valueConsumed) <;>
    rfl

theorem parseReply_congr
    (h : ∀ data' : Bytes, data'.length < data.length → parse data' = parse' data') :
    parseReply strtod parse data = parseReply strtod parse' data := by
  have helems : ∀ {offset : Nat} {value : Int} (count : Nat),
      parseIntegerLine data = .ok (offset, value) →
      parseElements parse count (data.drop offset) =
        parseElements parse' count (data.drop offset) := by
    intro offset value count hline
    have hlt := lt_of_parseIntegerLine hline
    apply parseElements_congr
    intro data' hle
    rw [length_drop] at hle
    exact h data' (by omega)
  have harray : parseArrayFast parse data = parseArrayFast parse' data := by
    unfold parseArrayFast
    split
    · rfl
    next hline => simp only [helems _ hline]
  have hset : parseSetFast parse data = parseSetFast parse' data := by
    unfold parseSetFast
    split
    · rfl
    next hline => simp only [helems _ hline]
  have hmap : parseMapFast parse data = parseMapFast parse' data := by
    unfold parseMapFast
    split
    · rfl
    next hline => simp only [parsePairs_eq, helems _ hline]
  unfold parseReply
  simp only [harray, hset, hmap]

theorem parseNested_eq (hdepth : data.length < depth) (hdepth' : data.length < depth') :
    parseNested strtod depth data = parseNested strtod depth' data := by
  induction depth generalizing depth' data with
  | zero => cases hdepth
  | succ depth ih =>
  cases depth' with
  | zero => cases hdepth'
  | succ depth' =>
  rw [parseNested, parseNested]
  exact parseReply_congr fun data' hlt => ih (by omega) (by omega)

theorem parseFast_eq (data : Bytes) :
    parseFast strtod data = parseReply strtod (parseFast strtod) data := by
  rw [parseFast, parseNested]
  exact parseReply_congr fun data' hlt => parseNested_eq hlt (Nat.lt_succ_self _)

end Equation

end Galay.Redis
