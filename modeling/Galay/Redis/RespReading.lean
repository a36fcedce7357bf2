import Galay.Redis.ProtocolLemmas

/-!
# The grammar of replies

Replies are leaves and aggregates of replies. A text in a line has no line end, so an empty simple
string is a marker and a line end. What is written here says what a reply looks like on the wire,
and nothing of how it is read.
-/

namespace Galay.Redis

variable {δ : Type} (strtod : Bytes → Strtod δ)

/-- The wire form of a reply without parts, and whether it is an empty simple string. -/
inductive Leaf : RedisReply δ → Bytes → Bool → Prop
  | simple {marker : UInt8} {text : Bytes} (hmark : marker ∈ ascii "+(") (htext : Plain text) :
    Leaf (.string .SimpleString text) (marker :: (text ++ CRLF)) (text = [])
  | error {text : Bytes} (htext : Plain text) :
    Leaf (.string .Error text) (0x2D :: (text ++ CRLF)) false
  | integer {text : Bytes} {value : Int} (htext : Plain text)
    (hval : parseIntegerValue text = .ok value) :
    Leaf (.integer value) (0x3A :: (text ++ CRLF)) false
  | null {marker : UInt8} {text : Bytes} (hmark : marker ∈ ascii "$=!*>") (htext : Plain text)
    (hval : parseIntegerValue text = .ok (-1)) : Leaf .null (marker :: (text ++ CRLF)) false
  | bulk {marker : UInt8} {text content : Bytes} (hmark : marker ∈ ascii "$=!")
    (htext : Plain text) (hval : parseIntegerValue text = .ok content.length)
    (hmax : content.length ≤ kMaxRespBulkLength)
    (hfits : text.length + 3 + content.length + 2 < 2 ^ 64) :
    Leaf (.string .BulkString content) (marker :: (text ++ CRLF ++ (content ++ CRLF))) false
  | double {text : Bytes} (htext : Plain text) (hempty : text ≠ [])
    (hmax : text.length ≤ kMaxRespDoubleTextLength) (hrange : (strtod text).erange = false)
    (hend : (strtod text).parsedEnd = text.length) :
    Leaf (.double (strtod text).value) (0x2C :: (text ++ CRLF)) false
  | boolean (value : Bool) :
    Leaf (.boolean value) (0x23 :: (if value then 0x74 else 0x66) :: CRLF) false

/-- The marker and the length of an aggregate, the number of its elements and what they make. -/
inductive Aggregate : UInt8 → Int → Nat → (List (RedisReply δ) → RedisReply δ) → Prop
  | array {marker : UInt8} {length : Nat} (hmark : marker ∈ ascii "*>")
    (hmax : length ≤ kMaxRespAggregateLength) : Aggregate marker length length (.array .Array)
  | set {length : Nat} (hmax : length ≤ kMaxRespAggregateLength) :
    Aggregate 0x7E length length (.array .Set)
  | map {length : Nat} (hmax : length ≤ kMaxRespMapPairs) :
    Aggregate 0x25 length (2 * length) fun elements => .map (pairUp elements)

/-- The wire form of replies in a row. The first flag says whether an empty simple string stands
before them, the second whether one ends them. -/
inductive Replies : Bool → List (RedisReply δ) → Bytes → Bool → Prop
  | nil {empty : Bool} : Replies empty [] [] empty
  | leaf {before empty after : Bool} {reply : RedisReply δ} {replies : List (RedisReply δ)}
    {wire wires : Bytes} (hleaf : Leaf strtod reply wire empty)
    (htail : Replies empty replies wires after) :
    Replies before (reply :: replies) (wire ++ wires) after
  | aggregate {before empty after : Bool} {marker : UInt8} {value : Int} {text wire wires : Bytes}
    {build : List (RedisReply δ) → RedisReply δ} {elements replies : List (RedisReply δ)}
    (haggregate : Aggregate marker value elements.length build) (htext : Plain text)
    (hval : parseIntegerValue text = .ok value) (helems : Replies false elements wire empty)
    (htail : Replies empty replies wires after) :
    Replies before (build elements :: replies) (marker :: (text ++ CRLF ++ wire) ++ wires) after

/-- The wire form of one reply that does not end in an empty simple string. -/
def Closed (reply : RedisReply δ) (wire : Bytes) : Prop := Replies strtod false [reply] wire false

end Galay.Redis

/-!
# How the wire form of replies is read

The parser reads replies that follow the grammar, and takes a part of them for incomplete. It looks
past a simple string for a line end: behind an empty one, a line end is taken for its text.
-/

namespace Galay.Redis

open Galay.Lib

variable {δ : Type} {strtod : Bytes → Strtod δ} {parse : Bytes → ParseResult δ}
variable {text rest cut : Bytes} {marker : UInt8} {reply : RedisReply δ}

/-! ## Lines -/

theorem length_line (marker : UInt8) (text : Bytes) :
    (marker :: (text ++ CRLF)).length = text.length + 3 := by
  rw [List.length_cons, List.length_append]
  rfl

theorem drop_line (marker : UInt8) (text rest : Bytes) :
    (marker :: (text ++ CRLF ++ rest)).drop (text.length + 3) = rest := by
  rw [← List.cons_append]
  exact List.drop_left' (length_line marker text)

theorem take_line (text rest : Bytes) : (text ++ CRLF ++ rest).take text.length = text := by
  rw [List.append_assoc, List.take_left]

theorem parseIntegerLine_line {value : Int} (marker : UInt8) (htext : Plain text)
    (hval : parseIntegerValue text = .ok value) (rest : Bytes) :
    parseIntegerLine (marker :: (text ++ CRLF ++ rest)) = .ok (text.length + 3, value) := by
  rw [parseIntegerLine, findCRLF_line marker htext]
  simp only [List.drop_succ_cons, List.drop_zero, Nat.add_sub_cancel, take_line, hval]

theorem parseIntegerLine_cut (htext : Plain text) (hcut : cut ++ rest = marker :: (text ++ CRLF))
    (hrest : rest ≠ []) : parseIntegerLine cut = .error .Incomplete := by
  rw [parseIntegerLine, findCRLF_cut htext hcut hrest]

theorem parseIntegerLine_eq_ok {data : Bytes} {offset : Nat} {value : Int}
    (h : parseIntegerLine (marker :: data) = .ok (offset, value)) :
    ∃ text rest, Plain text ∧ parseIntegerValue text = .ok value ∧
      data = text ++ CRLF ++ rest ∧ offset = text.length + 3 := by
  rw [parseIntegerLine] at h
  split at h
  · cases h
  next crlfPos hcrlf =>
  obtain ⟨text, rest, htext, rfl, rfl⟩ := line_of_findCRLF hcrlf
  simp only [List.drop_succ_cons, List.drop_zero, Nat.add_sub_cancel, take_line] at h
  split at h
  · cases h
  next hval =>
  cases h
  exact ⟨text, rest, htext, hval, rfl, rfl⟩

theorem cut_append {first second : Bytes} (hcut : cut ++ rest = first ++ second) :
    (∃ part, part ≠ [] ∧ cut ++ part = first) ∨
      ∃ part, cut = first ++ part ∧ part ++ rest = second := by
  rcases List.append_eq_append_iff.1 hcut with ⟨part, hfirst, hsecond⟩ | ⟨part, hfirst, hsecond⟩
  · cases part with
    | nil =>
      refine .inr ⟨[], ?_, hsecond⟩
      rw [List.append_nil] at hfirst
      rw [List.append_nil, hfirst]
    | cons next part => exact .inl ⟨next :: part, nofun, hfirst.symm⟩
  exact .inr ⟨part, hfirst, hsecond.symm⟩

/-! ## Simple strings -/

/-- The positions at which the short path of simple strings finds a line end. -/
theorem short_iff {data : Bytes} :
    (5 ≤ (marker :: data).length ∧ (marker :: data)[3]? = some 0x0D ∧
      (marker :: data)[4]? = some 0x0A) ↔ isCrlfAt data 2 := by
  rw [isCrlfAt_iff]
  constructor
  · exact fun h => h.2
  intro h
  obtain ⟨hlt, -⟩ := List.getElem?_eq_some_iff.1 h.2
  exact ⟨by rw [List.length_cons]; omega, h⟩

theorem isCrlfAt_two (htext : Plain text) (h : isCrlfAt (text ++ CRLF ++ rest) 2) :
    text.length = 2 ∨ text = [] ∧ isCrlfAt rest 0 := by
  match text, htext with
  | [], _ => exact .inr ⟨rfl, h⟩
  | [_], _ => exact absurd (isCrlfAt_iff.1 h).1 (by simp [CRLF])
  | [_, _], _ => exact .inl rfl
  | a :: b :: c :: text, htext =>
    have hlt : 2 < (a :: b :: c :: text).length := by
      simp only [List.length_cons]
      omega
    rw [isCrlfAt_append (by rw [List.length_append]; simp [CRLF])] at h
    exact absurd h (htext 2 hlt)

theorem parseSimpleStringFast_line (marker : UInt8) (htext : Plain text)
    (hrest : text = [] → ¬ isCrlfAt rest 0) :
    parseSimpleStringFast (marker :: (text ++ CRLF ++ rest)) =
      (.ok (text.length + 3, .string .SimpleString text) : ParseResult δ) := by
  rw [parseSimpleStringFast]
  split
  · next hshort =>
    rcases isCrlfAt_two htext (short_iff.1 hshort) with hlen | ⟨hempty, hcrlf⟩
    · have htake := take_line text rest
      rw [hlen] at htake
      rw [List.drop_succ_cons, List.drop_zero, htake, hlen]
    exact absurd hcrlf (hrest hempty)
  rw [findCRLF_line marker htext]
  simp only [List.drop_succ_cons, List.drop_zero, Nat.add_sub_cancel, take_line]

/-- Behind an empty simple string a line end is taken for its text. -/
theorem parseSimpleStringFast_misread (marker : UInt8) (rest : Bytes) :
    parseSimpleStringFast (marker :: (CRLF ++ (CRLF ++ rest))) =
      (.ok (5, .string .SimpleString CRLF) : ParseResult δ) :=
  if_pos (short_iff.2 (isCrlfAt_iff.2 ⟨rfl, rfl⟩))

theorem parseSimpleStringFast_cut (htext : Plain text)
    (hcut : cut ++ rest = marker :: (text ++ CRLF)) (hrest : rest ≠ []) :
    parseSimpleStringFast cut = (.error .Incomplete : ParseResult δ) := by
  rw [parseSimpleStringFast, findCRLF_cut htext hcut hrest]
  refine if_neg fun hshort => ?_
  have hat : isCrlfAt cut 3 := isCrlfAt_iff.2 hshort.2
  have hwhole : isCrlfAt (marker :: (text ++ CRLF)) 3 := by
    rw [← hcut, isCrlfAt_append (lt_length_of_isCrlfAt hat)]
    exact hat
  have hlen := congrArg List.length hcut
  have hpos := List.length_pos_iff.2 hrest
  rw [List.length_append, length_line] at hlen
  rw [isCrlfAt_cons] at hwhole
  exact htext 2 (by omega) hwhole

/-! ## Bulk strings -/

theorem parseBulkStringFast_line {content : Bytes} (marker : UInt8) (htext : Plain text)
    (hval : parseIntegerValue text = .ok content.length)
    (hmax : content.length ≤ kMaxRespBulkLength)
    (hfits : text.length + 3 + content.length + 2 < 2 ^ 64) (rest : Bytes) :
    parseBulkStringFast (marker :: (text ++ CRLF ++ (content ++ CRLF ++ rest))) =
      (.ok (text.length + 3 + content.length + 2, .string .BulkString content) :
        ParseResult δ) := by
  have hline := parseIntegerLine_line marker htext hval (content ++ CRLF ++ rest)
  have hlen : (marker :: (text ++ CRLF ++ (content ++ CRLF ++ rest))).length =
      text.length + 3 + content.length + 2 + rest.length := by
    simp [CRLF]
    omega
  have hat : isCrlfAt (marker :: (text ++ CRLF ++ (content ++ CRLF ++ rest)))
      (text.length + 3 + content.length) := by
    have hend := isCrlfAt_line (marker :: (text ++ CRLF ++ content)) rest
    have heq : (marker :: (text ++ CRLF ++ content)).length = text.length + 3 + content.length := by
      simp [CRLF]
      omega
    rw [heq] at hend
    simpa [List.append_assoc] using hend
  obtain ⟨hcr, hlf⟩ := isCrlfAt_iff.1 hat
  have hstart : ¬ addWouldOverflow (text.length + 3) content.length := by
    simp only [addWouldOverflow, decide_eq_true_iff]
    omega
  have hend : ¬ addWouldOverflow (text.length + 3 + content.length) 2 := by
    simp only [addWouldOverflow, decide_eq_true_iff]
    omega
  have hroom : ¬ ((marker :: (text ++ CRLF ++ (content ++ CRLF ++ rest))).length -
      (text.length + 3) < content.length ∨
      (marker :: (text ++ CRLF ++ (content ++ CRLF ++ rest))).length <
        text.length + 3 + content.length + 2) := by
    rw [hlen]
    omega
  rw [parseBulkStringFast, hline]
  simp only [Int.toNat_natCast]
  rw [if_neg (by omega), if_neg (by omega), if_neg (by omega), if_neg hstart, if_neg hend,
    if_neg hroom, if_neg (fun h => h.elim (· hcr) (· hlf)), drop_line, take_line]

theorem parseBulkStringFast_cut {content : Bytes} (htext : Plain text)
    (hval : parseIntegerValue text = .ok content.length)
    (hmax : content.length ≤ kMaxRespBulkLength)
    (hfits : text.length + 3 + content.length + 2 < 2 ^ 64)
    (hcut : cut ++ rest = content ++ CRLF) (hrest : rest ≠ []) :
    parseBulkStringFast (marker :: (text ++ CRLF ++ cut)) =
      (.error .Incomplete : ParseResult δ) := by
  have hline := parseIntegerLine_line marker htext hval cut
  have hlen : (marker :: (text ++ CRLF ++ cut)).length = text.length + 3 + cut.length := by
    simp [CRLF]
    omega
  have hshort := congrArg List.length hcut
  have hpos := List.length_pos_iff.2 hrest
  have hcrlf : CRLF.length = 2 := rfl
  rw [List.length_append, List.length_append] at hshort
  have hstart : ¬ addWouldOverflow (text.length + 3) content.length := by
    simp only [addWouldOverflow, decide_eq_true_iff]
    omega
  have hend : ¬ addWouldOverflow (text.length + 3 + content.length) 2 := by
    simp only [addWouldOverflow, decide_eq_true_iff]
    omega
  rw [parseBulkStringFast, hline]
  simp only [Int.toNat_natCast]
  rw [if_neg (by omega), if_neg (by omega), if_neg (by omega), if_neg hstart, if_neg hend,
    if_pos (.inr (by rw [hlen]; omega))]

theorem bulk_of_isCrlfAt {size : Nat} (hmark : marker ∈ ascii "$=!") (htext : Plain text)
    (hval : parseIntegerValue text = .ok size) (hmax : size ≤ kMaxRespBulkLength)
    (hend : ¬ addWouldOverflow (text.length + 3 + size) 2)
    (hat : isCrlfAt (marker :: (text ++ CRLF ++ rest)) (text.length + 3 + size)) :
    text.length + 3 + size + 2 ≤ (marker :: (text ++ CRLF ++ rest)).length ∧
      Leaf strtod (.string .BulkString
          (((marker :: (text ++ CRLF ++ rest)).drop (text.length + 3)).take size))
        ((marker :: (text ++ CRLF ++ rest)).take (text.length + 3 + size + 2)) false := by
  have hlt := lt_length_of_isCrlfAt hat
  refine ⟨hlt, ?_⟩
  rw [← isCrlfAt_drop, drop_line] at hat
  have hin := lt_length_of_isCrlfAt hat
  have hlen : (rest.take size).length = size := List.length_take_of_le (by omega)
  have hwire : (marker :: (text ++ CRLF ++ rest)).take (text.length + 3 + size + 2) =
      marker :: (text ++ CRLF ++ (rest.take size ++ CRLF)) := by
    have hsplit := split_of_isCrlfAt hat
    generalize rest.take size = content at *
    generalize rest.drop (size + 2) = rest' at *
    subst hsplit hlen
    rw [← List.append_assoc, ← List.cons_append]
    apply List.take_left'
    simp [CRLF]
    omega
  simp only [addWouldOverflow, decide_eq_true_iff] at hend
  rw [hwire, drop_line]
  refine .bulk hmark htext (by rw [hlen]; exact hval) (by rw [hlen]; exact hmax) ?_
  rw [hlen]
  omega

theorem parseBulkStringFast_eq_ok {data : Bytes} {n : Nat} (hmark : marker ∈ ascii "$=!")
    (h : parseBulkStringFast (marker :: data) = .ok (n, reply)) :
    n ≤ (marker :: data).length ∧ Leaf strtod reply ((marker :: data).take n) false := by
  rw [parseBulkStringFast] at h
  split at h
  · cases h
  next contentStart strLen hline =>
  obtain ⟨text, rest, htext, hval, rfl, rfl⟩ := parseIntegerLine_eq_ok hline
  split at h
  · next hnull =>
    cases h
    rw [hnull] at hval
    rw [← List.cons_append, List.take_left' (length_line marker text), List.length_append,
      length_line]
    refine ⟨Nat.le_add_right _ _, .null ?_ htext hval⟩
    revert hmark
    simp [ascii]
    tauto
  split at h
  · cases h
  split at h
  · cases h
  simp only at h
  split at h
  · cases h
  split at h
  · cases h
  split at h
  · cases h
  split at h
  · cases h
  next hnonneg hmax hstart hend hroom hcrlf =>
  cases h
  obtain ⟨size, rfl⟩ := Int.eq_ofNat_of_zero_le (Int.not_lt.1 hnonneg)
  simp only [Int.toNat_natCast, not_or, Decidable.not_not] at *
  exact bulk_of_isCrlfAt hmark htext hval (Int.not_lt.1 hmax) hend
    (isCrlfAt_iff.2 hcrlf)

/-! ## The kinds of replies -/

section Kinds

variable {data : Bytes}

theorem parseReply_simple (hmark : marker ∈ ascii "+(") :
    parseReply strtod parse (marker :: data) = parseSimpleStringFast (marker :: data) := by
  have hcases : marker = 0x2B ∨ marker = 0x28 := by simpa [ascii] using hmark
  rcases hcases with rfl | rfl <;> rfl

theorem parseReply_bulk (hmark : marker ∈ ascii "$=!") :
    parseReply strtod parse (marker :: data) = parseBulkStringFast (marker :: data) := by
  have hcases : marker = 0x24 ∨ marker = 0x3D ∨ marker = 0x21 := by simpa [ascii] using hmark
  rcases hcases with rfl | rfl | rfl <;> rfl

theorem parseReply_array (hmark : marker ∈ ascii "*>") :
    parseReply strtod parse (marker :: data) = parseArrayFast parse (marker :: data) := by
  have hcases : marker = 0x2A ∨ marker = 0x3E := by simpa [ascii] using hmark
  rcases hcases with rfl | rfl <;> rfl

theorem mem_null (hmark : marker ∈ ascii "$=!*>") :
    marker ∈ ascii "$=!" ∨ marker ∈ ascii "*>" := by
  have hsplit : ascii "$=!*>" = ascii "$=!" ++ ascii "*>" := rfl
  rw [hsplit] at hmark
  exact List.mem_append.1 hmark

end Kinds

/-! ## Leaves -/

section Leaves

variable {wire : Bytes} {empty : Bool}

theorem Leaf.read (hleaf : Leaf strtod reply wire empty) (rest : Bytes)
    (hrest : empty → ¬ isCrlfAt rest 0) :
    parseReply strtod parse (wire ++ rest) = .ok (wire.length, reply) := by
  cases hleaf with
  | simple hmark htext =>
    rw [List.cons_append, parseReply_simple hmark, length_line]
    exact parseSimpleStringFast_line _ htext fun h => hrest (decide_eq_true h)
  | @error text htext =>
    have hkind : parseReply strtod parse (0x2D :: (text ++ CRLF ++ rest)) =
      parseErrorFast (0x2D :: (text ++ CRLF ++ rest)) := rfl
    rw [List.cons_append, hkind, parseErrorFast, findCRLF_line _ htext, length_line]
    simp only [List.drop_succ_cons, List.drop_zero, Nat.add_sub_cancel, take_line]
  | @integer text value htext hval =>
    have hkind : parseReply strtod parse (0x3A :: (text ++ CRLF ++ rest)) =
      parseIntegerFast (0x3A :: (text ++ CRLF ++ rest)) := rfl
    rw [List.cons_append, hkind, parseIntegerFast, parseIntegerLine_line _ htext hval, length_line]
  | @null marker text hmark htext hval =>
    rw [List.cons_append, length_line]
    rcases mem_null hmark with hmark | hmark
    · rw [parseReply_bulk hmark, parseBulkStringFast, parseIntegerLine_line _ htext hval]
      rfl
    rw [parseReply_array hmark, parseArrayFast, parseIntegerLine_line _ htext hval]
    rfl
  | @bulk marker text content hmark htext hval hmax hfits =>
    have hlen : (marker :: (text ++ CRLF ++ (content ++ CRLF))).length =
        text.length + 3 + content.length + 2 := by
      simp [CRLF]
      omega
    rw [List.cons_append, parseReply_bulk hmark, hlen, List.append_assoc (text ++ CRLF)]
    exact parseBulkStringFast_line marker htext hval hmax hfits rest
  | @double text htext hempty hmax hrange hend =>
    have hkind : parseReply strtod parse (0x2C :: (text ++ CRLF ++ rest)) =
      parseDoubleFast strtod (0x2C :: (text ++ CRLF ++ rest)) := rfl
    have hlen : ¬ (text.length = 0 ∨ kMaxRespDoubleTextLength < text.length) := by
      rw [List.length_eq_zero_iff]
      exact fun h => h.elim hempty (Nat.not_lt_of_le hmax)
    have hgood : ¬ ((strtod text).erange = true ∨ (strtod text).parsedEnd ≠ text.length) := by
      rw [hrange]
      exact fun h => h.elim (by rintro ⟨⟩) (· hend)
    rw [List.cons_append, hkind, parseDoubleFast, findCRLF_line _ htext, length_line]
    simp only [List.drop_succ_cons, List.drop_zero, Nat.add_sub_cancel, take_line, if_neg hlen,
      if_neg hgood]
  | boolean value => cases value <;> rfl

theorem Leaf.incomplete (hleaf : Leaf strtod reply wire empty) (hcut : cut ++ rest = wire)
    (hrest : rest ≠ []) : parseReply strtod parse cut = .error .Incomplete := by
  cases cut with
  | nil => rfl
  | cons first cut =>
  cases hleaf with
  | simple hmark htext =>
    cases (List.cons.inj hcut).1
    rw [parseReply_simple hmark, parseSimpleStringFast_cut htext hcut hrest]
  | error htext =>
    cases (List.cons.inj hcut).1
    have hkind : parseReply strtod parse (0x2D :: cut) = parseErrorFast (0x2D :: cut) := rfl
    rw [hkind, parseErrorFast, findCRLF_cut htext hcut hrest]
  | integer htext hval =>
    cases (List.cons.inj hcut).1
    have hkind : parseReply strtod parse (0x3A :: cut) = parseIntegerFast (0x3A :: cut) := rfl
    rw [hkind, parseIntegerFast, parseIntegerLine_cut htext hcut hrest]
  | null hmark htext hval =>
    cases (List.cons.inj hcut).1
    rcases mem_null hmark with hmark | hmark
    · rw [parseReply_bulk hmark, parseBulkStringFast, parseIntegerLine_cut htext hcut hrest]
    rw [parseReply_array hmark, parseArrayFast, parseIntegerLine_cut htext hcut hrest]
  | @bulk marker text content hmark htext hval hmax hfits =>
    have hparts : first :: cut ++ rest = marker :: (text ++ CRLF) ++ (content ++ CRLF) := hcut
    cases (List.cons.inj hcut).1
    rw [parseReply_bulk hmark]
    rcases cut_append hparts with ⟨part, hpart, hline⟩ | ⟨part, hline, hpart⟩
    · rw [parseBulkStringFast, parseIntegerLine_cut htext hline hpart]
    rw [hline]
    exact parseBulkStringFast_cut htext hval hmax hfits hpart hrest
  | double htext hempty hmax hrange hend =>
    cases (List.cons.inj hcut).1
    have hkind : parseReply strtod parse (0x2C :: cut) = parseDoubleFast strtod (0x2C :: cut) :=
      rfl
    rw [hkind, parseDoubleFast, findCRLF_cut htext hcut hrest]
  | boolean value =>
  cases (List.cons.inj hcut).1
  have hkind : parseReply strtod parse (0x23 :: cut) = parseBooleanFast (0x23 :: cut) := rfl
  have hlen := congrArg List.length hcut
  have hpos := List.length_pos_iff.2 hrest
  rw [List.length_append] at hlen
  have hfour : ((0x23 : UInt8) :: (if value then 0x74 else 0x66) :: CRLF).length = 4 := rfl
  rw [hkind, parseBooleanFast, if_pos (by omega)]

end Leaves

/-! ## Aggregates -/

section Aggregates

variable {value : Int} {count : Nat} {build : List (RedisReply δ) → RedisReply δ}

theorem Aggregate.read (haggregate : Aggregate marker value count build) (htext : Plain text)
    (hval : parseIntegerValue text = .ok value) (body : Bytes) :
    parseReply strtod parse (marker :: (text ++ CRLF ++ body)) =
      (parseElements parse count body).map fun (consumed, elements) =>
        (text.length + 3 + consumed, build elements) := by
  have hline := parseIntegerLine_line marker htext hval body
  cases haggregate with
  | array hmark hmax =>
    rw [parseReply_array hmark, parseArrayFast, hline]
    simp only [drop_line, Int.toNat_natCast]
    rw [if_neg (by omega), if_neg (by omega), if_neg (by omega)]
    cases parseElements parse count body <;> rfl
  | set hmax =>
    have hkind : parseReply strtod parse (0x7E :: (text ++ CRLF ++ body)) =
      parseSetFast parse (0x7E :: (text ++ CRLF ++ body)) := rfl
    rw [hkind, parseSetFast, hline]
    simp only [drop_line, Int.toNat_natCast]
    rw [if_neg (by omega), if_neg (by omega)]
    cases parseElements parse count body <;> rfl
  | @map length hmax =>
  have hkind : parseReply strtod parse (0x25 :: (text ++ CRLF ++ body)) =
    parseMapFast parse (0x25 :: (text ++ CRLF ++ body)) := rfl
  rw [hkind, parseMapFast, hline]
  simp only [drop_line, Int.toNat_natCast, parsePairs_eq]
  rw [if_neg (by omega), if_neg (by omega)]
  cases parseElements parse (2 * length) body <;> rfl

theorem Aggregate.incomplete (haggregate : Aggregate marker value count build)
    (htext : Plain text) (hcut : cut ++ rest = marker :: (text ++ CRLF)) (hrest : rest ≠ []) :
    parseReply strtod parse cut = .error .Incomplete := by
  have hline := parseIntegerLine_cut htext hcut hrest
  cases cut with
  | nil => rfl
  | cons first cut =>
  cases (List.cons.inj hcut).1
  cases haggregate with
  | array hmark hmax => rw [parseReply_array hmark, parseArrayFast, hline]
  | set hmax =>
    have hkind : parseReply strtod parse (0x7E :: cut) = parseSetFast parse (0x7E :: cut) := rfl
    rw [hkind, parseSetFast, hline]
  | map hmax =>
  have hkind : parseReply strtod parse (0x25 :: cut) = parseMapFast parse (0x25 :: cut) := rfl
  rw [hkind, parseMapFast, hline]

end Aggregates

/-! ## Replies in a row -/

section Rows

variable {before empty after : Bool} {replies : List (RedisReply δ)} {wire wires : Bytes}

theorem not_isCrlfAt_cons (hmark : marker ≠ 0x0D) (data : Bytes) :
    ¬ isCrlfAt (marker :: data) 0 := fun h =>
  hmark (Option.some.inj (isCrlfAt_iff.1 h).1)

theorem Leaf.not_isCrlfAt (hleaf : Leaf strtod reply wire empty) (rest : Bytes) :
    ¬ isCrlfAt (wire ++ rest) 0 := by
  cases hleaf with
  | simple hmark | null hmark | bulk hmark =>
    refine not_isCrlfAt_cons (fun h => ?_) _
    rw [h] at hmark
    exact absurd hmark (by decide)
  | error | integer | double | boolean => exact not_isCrlfAt_cons (by decide) _

variable {build : List (RedisReply δ) → RedisReply δ}

theorem Aggregate.ne_cr {value : Int} {count : Nat}
    (haggregate : Aggregate marker value count build) : marker ≠ 0x0D := by
  cases haggregate with
  | array hmark =>
    intro h
    rw [h] at hmark
    exact absurd hmark (by decide)
  | set | map => decide

/-- Replies do not start with a line end. -/
theorem Replies.not_isCrlfAt_of_ne (hreps : Replies strtod before replies wire after)
    (hne : replies ≠ []) (rest : Bytes) : ¬ isCrlfAt (wire ++ rest) 0 := by
  cases hreps with
  | nil => exact absurd rfl hne
  | leaf hleaf htail =>
    rw [List.append_assoc]
    exact hleaf.not_isCrlfAt _
  | aggregate haggregate htext hval helems htail =>
  rw [List.append_assoc, List.cons_append]
  exact not_isCrlfAt_cons haggregate.ne_cr _

theorem Replies.not_isCrlfAt (hreps : Replies strtod before replies wire after)
    (hrest : after → ¬ isCrlfAt rest 0) : before → ¬ isCrlfAt (wire ++ rest) 0 := by
  intro hbefore
  by_cases hne : replies = []
  · subst hne
    cases hreps with
    | nil => exact hrest hbefore
  exact hreps.not_isCrlfAt_of_ne hne rest

theorem Leaf.ne_nil (hleaf : Leaf strtod reply wire empty) : wire ≠ [] := by
  cases hleaf <;> exact nofun

theorem Leaf.read_fast (hleaf : Leaf strtod reply wire empty) (rest : Bytes)
    (hrest : empty → ¬ isCrlfAt rest 0) :
    parseFast strtod (wire ++ rest) = .ok (wire.length, reply) := by
  rw [parseFast_eq]
  exact hleaf.read rest hrest

theorem Aggregate.read_fast {value : Int} {elements : List (RedisReply δ)}
    (haggregate : Aggregate marker value elements.length build) (htext : Plain text)
    (hval : parseIntegerValue text = .ok value)
    (hread : parseElements (parseFast strtod) elements.length (wire ++ rest) =
      .ok (wire.length, elements)) :
    parseFast strtod (marker :: (text ++ CRLF ++ wire) ++ rest) =
      .ok ((marker :: (text ++ CRLF ++ wire)).length, build elements) := by
  rw [parseFast_eq, List.cons_append, List.append_assoc (text ++ CRLF),
    haggregate.read htext hval, hread, ← List.cons_append, List.length_append, length_line]
  rfl

/-- The first of some replies is read, and then the others. -/
theorem parseElements_append (hwire : wire ≠ [])
    (hparse : parse (wire ++ rest) = .ok (wire.length, reply)) (count : Nat) :
    parseElements parse (count + 1) (wire ++ rest) =
      (parseElements parse count rest).map fun (consumed, elements) =>
        (wire.length + consumed, reply :: elements) := by
  have hdata : wire ++ rest ≠ [] := fun h => hwire (List.append_eq_nil_iff.1 h).1
  rw [parseElements, if_neg hdata, hparse]
  simp only [List.drop_left]
  cases parseElements parse count rest <;> rfl

/-- Replies are read, unless a line end follows an empty simple string. -/
theorem Replies.read (hreps : Replies strtod before replies wire after) (rest : Bytes)
    (hrest : after → ¬ isCrlfAt rest 0) :
    parseElements (parseFast strtod) replies.length (wire ++ rest) =
      .ok (wire.length, replies) := by
  induction hreps generalizing rest with
  | nil => rfl
  | leaf hleaf htail ih =>
    rw [List.append_assoc, List.length_cons, List.length_append,
      parseElements_append hleaf.ne_nil (hleaf.read_fast _ (htail.not_isCrlfAt hrest)),
      ih rest hrest]
    rfl
  | aggregate haggregate htext hval helems htail ihe ih =>
  rw [List.append_assoc, List.length_cons, List.length_append,
    parseElements_append (List.cons_ne_nil _ _)
      (haggregate.read_fast htext hval (ihe _ (htail.not_isCrlfAt hrest))), ih rest hrest]
  rfl

theorem parseElements_incomplete {data : Bytes} (hparse : parse data = .error .Incomplete)
    (count : Nat) : parseElements parse (count + 1) data = .error .Incomplete := by
  rw [parseElements, hparse]
  split <;> rfl

/-- No line end follows an empty simple string in a part of what follows the grammar. -/
theorem Replies.not_isCrlfAt_part {part : Bytes}
    (hreps : Replies strtod before replies wire after) (hpart : part ++ rest = wire) :
    before → ¬ isCrlfAt part 0 := by
  intro hbefore h
  have hnot : ¬ isCrlfAt (wire ++ []) 0 := hreps.not_isCrlfAt (fun _ => nofun) hbefore
  rw [List.append_nil, ← hpart, isCrlfAt_append (lt_length_of_isCrlfAt h)] at hnot
  exact hnot h

theorem Replies.incomplete (hreps : Replies strtod before replies wire after)
    (hcut : cut ++ rest = wire) (hrest : rest ≠ []) :
    parseElements (parseFast strtod) replies.length cut = .error .Incomplete := by
  induction hreps generalizing cut rest with
  | nil => exact absurd (List.append_eq_nil_iff.1 hcut).2 hrest
  | leaf hleaf htail ih =>
    rw [List.length_cons]
    rcases cut_append hcut with ⟨part, hpart, hwire⟩ | ⟨part, rfl, hpart⟩
    · apply parseElements_incomplete
      rw [parseFast_eq]
      exact hleaf.incomplete hwire hpart
    rw [parseElements_append hleaf.ne_nil (hleaf.read_fast _ (htail.not_isCrlfAt_part hpart)),
      ih hpart hrest]
    rfl
  | aggregate haggregate htext hval helems htail ihe ih =>
  rw [List.length_cons]
  rcases cut_append hcut with ⟨part, hpart, hwire⟩ | ⟨part, rfl, hpart⟩
  · apply parseElements_incomplete
    rw [parseFast_eq]
    rw [← List.cons_append] at hwire
    -- the cut is in the line of the length or in the elements
    rcases cut_append hwire with ⟨part', hpart', hline⟩ | ⟨part', rfl, hpart'⟩
    · exact haggregate.incomplete htext hline hpart'
    rw [List.cons_append, haggregate.read htext hval, ihe hpart' hpart]
    rfl
  have hread := helems.read part (htail.not_isCrlfAt_part hpart)
  rw [parseElements_append (List.cons_ne_nil _ _) (haggregate.read_fast htext hval hread),
    ih hpart hrest]
  rfl

theorem parseElements_one {data : Bytes} (hdata : data ≠ [])
    (hparse : parse data = .ok (data.length, reply)) :
    parseElements parse 1 data = .ok (data.length, [reply]) := by
  have hparse' : parse (data ++ []) = .ok (data.length, reply) := by
    rw [List.append_nil]
    exact hparse
  have hone := parseElements_append hdata hparse' 0
  rwa [List.append_nil] at hone

/-- A line end behind an empty simple string is read with it. -/
theorem Replies.misread (hreps : Replies strtod before replies wire after)
    (hafter : after = true) (hne : replies ≠ []) :
    ∃ misread, parseElements (parseFast strtod) replies.length (wire ++ CRLF) =
      .ok ((wire ++ CRLF).length, misread) := by
  induction hreps with
  | nil => exact absurd rfl hne
  | @leaf before empty after reply replies wire wires hleaf htail ih =>
    rw [List.length_cons, List.append_assoc]
    by_cases htails : replies = []
    · subst htails
      cases htail with
      | nil =>
      cases hleaf with
      | @simple marker text hmark htext =>
        obtain rfl := of_decide_eq_true hafter
        refine ⟨[.string .SimpleString CRLF], parseElements_one nofun ?_⟩
        rw [parseFast_eq]
        exact (parseReply_simple hmark).trans (parseSimpleStringFast_misread marker [])
      | _ => cases hafter
    obtain ⟨misread, hmisread⟩ := ih hafter htails
    refine ⟨reply :: misread, ?_⟩
    rw [parseElements_append hleaf.ne_nil
      (hleaf.read_fast _ fun _ => htail.not_isCrlfAt_of_ne htails CRLF), hmisread]
    exact congrArg (fun n => Except.ok (n, reply :: misread)) List.length_append.symm
  | @aggregate before empty after marker value text wire wires build elements replies haggregate
      htext hval helems htail ihe ih =>
    rw [List.length_cons, List.append_assoc]
    by_cases htails : replies = []
    · subst htails
      cases htail with
      | nil =>
      have helems' : elements ≠ [] := by
        rintro rfl
        cases helems
        cases hafter
      obtain ⟨misread, hmisread⟩ := ihe hafter helems'
      refine ⟨[build misread], parseElements_one nofun ?_⟩
      rw [parseFast_eq, List.cons_append, List.nil_append, List.append_assoc (text ++ CRLF),
        haggregate.read htext hval, hmisread, ← List.cons_append]
      have hlen : (marker :: (text ++ CRLF) ++ (wire ++ CRLF)).length =
          text.length + 3 + (wire ++ CRLF).length := by
        rw [List.length_append, length_line]
      rw [hlen]
      rfl
    obtain ⟨misread, hmisread⟩ := ih hafter htails
    have hread := helems.read (wires ++ CRLF) fun _ =>
      htail.not_isCrlfAt_of_ne htails CRLF
    refine ⟨build elements :: misread, ?_⟩
    rw [parseElements_append (List.cons_ne_nil _ _) (haggregate.read_fast htext hval hread),
      hmisread]
    exact congrArg (fun n => Except.ok (n, build elements :: misread)) List.length_append.symm

end Rows

end Galay.Redis
