import Galay.Redis.RespReading

/-!
# When the result of the parser does not depend on what follows

What the parser accepts follows the grammar, except where it takes a line end behind an empty simple
string for its text. Then a part of what it read is taken for something else.
-/

namespace Galay.Redis

open List

variable {δ : Type} {strtod : Bytes → Strtod δ} {parse : Bytes → ParseResult δ}
variable {reply : RedisReply δ}

/-! ## What the parser accepts -/

/-- The ways in which a reply can have been read. -/
inductive Reading (strtod : Bytes → Strtod δ) (parse : Bytes → ParseResult δ) :
    Bytes → Nat → RedisReply δ → Prop
  | leaf {wire rest : Bytes} {reply : RedisReply δ} {empty : Bool}
    (hleaf : Leaf strtod reply wire empty) : Reading strtod parse (wire ++ rest) wire.length reply
  | misread {marker : UInt8} {rest : Bytes} {reply : RedisReply δ} (hmark : marker ∈ ascii "+(") :
    Reading strtod parse (marker :: (CRLF ++ (CRLF ++ rest))) 5 reply
  | aggregate {marker : UInt8} {value : Int} {count consumed : Nat} {text body : Bytes}
    {build : List (RedisReply δ) → RedisReply δ} {elements : List (RedisReply δ)}
    (haggregate : Aggregate marker value count build) (htext : Plain text)
    (hval : parseIntegerValue text = .ok value)
    (helems : parseElements parse count body = .ok (consumed, elements)) :
    Reading strtod parse (marker :: (text ++ CRLF ++ body)) (text.length + 3 + consumed)
      (build elements)

theorem Reading.line {marker : UInt8} {text : Bytes} {empty : Bool}
    (hleaf : Leaf strtod reply (marker :: (text ++ CRLF)) empty) (rest : Bytes) :
    Reading strtod parse (marker :: (text ++ CRLF ++ rest)) (text.length + 3) reply := by
  rw [← length_line marker text, ← cons_append]
  exact .leaf hleaf

theorem plain_of_length_two {text : Bytes} (hlen : text.length = 2) (hne : text ≠ CRLF) :
    Plain text := by
  match text, hlen with
  | [a, b], _ =>
    intro j hj hat
    match j with
    | 0 =>
      obtain ⟨hcr, hlf⟩ := isCrlfAt_iff.1 hat
      cases Option.some.inj hcr
      cases Option.some.inj hlf
      exact hne rfl
    | 1 => exact absurd (isCrlfAt_iff.1 hat).2 (by simp [CRLF])

theorem reading_of_parseSimpleStringFast {marker : UInt8} {data : Bytes} {n : Nat}
    (hmark : marker ∈ ascii "+(") (h : parseSimpleStringFast (marker :: data) = .ok (n, reply)) :
    Reading strtod parse (marker :: data) n reply := by
  rw [parseSimpleStringFast] at h
  split at h
  · next hshort =>
    cases h
    have hat := short_iff.1 hshort
    have hlen : (data.take 2).length = 2 := by
      have hlt := lt_length_of_isCrlfAt hat
      exact length_take_of_le (by omega)
    have hsplit := split_of_isCrlfAt hat
    rw [drop_succ_cons, drop_zero]
    generalize data.take 2 = text at *
    rw [hsplit]
    by_cases htext : text = CRLF
    · rw [htext, append_assoc]
      exact .misread hmark
    have hline : Reading strtod parse (marker :: (text ++ CRLF ++ data.drop 4))
        (text.length + 3) (.string .SimpleString text) :=
      Reading.line (.simple hmark (plain_of_length_two hlen htext)) _
    rwa [hlen] at hline
  split at h
  · cases h
  next crlfPos hcrlf =>
  obtain ⟨text, rest, htext, rfl, rfl⟩ := line_of_findCRLF hcrlf
  cases h
  rw [drop_succ_cons, drop_zero, Nat.add_sub_cancel, take_line]
  exact Reading.line (.simple hmark htext) rest

section Kinds

variable {data : Bytes} {n : Nat}

theorem reading_of_parseErrorFast (h : parseErrorFast (0x2D :: data) = .ok (n, reply)) :
    Reading strtod parse (0x2D :: data) n reply := by
  rw [parseErrorFast] at h
  split at h
  · cases h
  next crlfPos hcrlf =>
  obtain ⟨text, rest, htext, rfl, rfl⟩ := line_of_findCRLF hcrlf
  cases h
  rw [drop_succ_cons, drop_zero, Nat.add_sub_cancel, take_line]
  exact Reading.line (.error htext) rest

theorem reading_of_parseIntegerFast (h : parseIntegerFast (0x3A :: data) = .ok (n, reply)) :
    Reading strtod parse (0x3A :: data) n reply := by
  rw [parseIntegerFast] at h
  split at h
  · cases h
  next hline =>
  obtain ⟨text, rest, htext, hval, rfl, rfl⟩ := parseIntegerLine_eq_ok hline
  cases h
  exact Reading.line (.integer htext hval) rest

theorem reading_of_parseBulkStringFast {marker : UInt8} (hmark : marker ∈ ascii "$=!")
    (h : parseBulkStringFast (marker :: data) = .ok (n, reply)) :
    Reading strtod parse (marker :: data) n reply := by
  obtain ⟨hle, hleaf⟩ : n ≤ (marker :: data).length ∧
      Leaf strtod reply ((marker :: data).take n) false := parseBulkStringFast_eq_ok hmark h
  have hreading : Reading strtod parse ((marker :: data).take n ++ (marker :: data).drop n)
      ((marker :: data).take n).length reply := .leaf hleaf
  rwa [take_append_drop, length_take_of_le hle] at hreading

theorem reading_of_parseDoubleFast (h : parseDoubleFast strtod (0x2C :: data) = .ok (n, reply)) :
    Reading strtod parse (0x2C :: data) n reply := by
  rw [parseDoubleFast] at h
  split at h
  · cases h
  next crlfPos hcrlf =>
  obtain ⟨text, rest, htext, rfl, rfl⟩ := line_of_findCRLF hcrlf
  simp only [drop_succ_cons, drop_zero, Nat.add_sub_cancel, take_line] at h
  split at h
  · cases h
  next hlen =>
  split at h
  · cases h
  next hgood =>
  cases h
  rw [not_or] at hlen hgood
  refine Reading.line (.double htext ?_ (Nat.le_of_not_lt hlen.2) ?_ ?_) rest
  · exact fun hempty => hlen.1 (List.length_eq_zero_iff.2 hempty)
  · exact Bool.eq_false_iff.2 hgood.1
  exact Decidable.not_not.1 hgood.2

theorem reading_of_parseBooleanFast (h : parseBooleanFast (0x23 :: data) = .ok (n, reply)) :
    Reading strtod parse (0x23 :: data) n reply := by
  rw [parseBooleanFast] at h
  rcases data with _ | ⟨first, _ | ⟨cr, _ | ⟨lf, rest⟩⟩⟩
  · cases h
  · cases h
  · cases h
  split at h
  · cases h
  split at h
  · cases h
  next hval =>
  split at h
  · cases h
  next hcrlf =>
  simp only [getElem?_cons_succ, getElem?_cons_zero, not_or, Decidable.not_not,
    Option.some.injEq, not_and] at hval hcrlf
  obtain ⟨rfl, rfl⟩ := hcrlf
  cases h
  by_cases htrue : first = 0x74
  · subst htrue
    exact .leaf (.boolean true)
  obtain rfl := hval fun h => htrue (Option.some.inj h)
  exact .leaf (.boolean false)

theorem reading_of_parseArrayFast {marker : UInt8} (hmark : marker ∈ ascii "*>")
    (h : parseArrayFast parse (marker :: data) = .ok (n, reply)) :
    Reading strtod parse (marker :: data) n reply := by
  rw [parseArrayFast] at h
  split at h
  · cases h
  next hline =>
  obtain ⟨text, rest, htext, hval, rfl, rfl⟩ := parseIntegerLine_eq_ok hline
  split at h
  · next hnull =>
    cases h
    subst hnull
    exact Reading.line (.null (mem_append_right (ascii "$=!") hmark) htext hval) rest
  split at h
  · cases h
  next hnonneg =>
  obtain ⟨length, rfl⟩ := Int.eq_ofNat_of_zero_le (Int.not_lt.1 hnonneg)
  split at h
  · cases h
  next hmax =>
  rw [drop_line] at h
  split at h
  · cases h
  next helems =>
  cases h
  exact .aggregate (.array hmark (Int.not_lt.1 hmax)) htext hval helems

theorem reading_of_parseSetFast (h : parseSetFast parse (0x7E :: data) = .ok (n, reply)) :
    Reading strtod parse (0x7E :: data) n reply := by
  rw [parseSetFast] at h
  split at h
  · cases h
  next hline =>
  obtain ⟨text, rest, htext, hval, rfl, rfl⟩ := parseIntegerLine_eq_ok hline
  split at h
  · cases h
  next hnonneg =>
  obtain ⟨length, rfl⟩ := Int.eq_ofNat_of_zero_le (Int.not_lt.1 hnonneg)
  split at h
  · cases h
  next hmax =>
  rw [drop_line] at h
  split at h
  · cases h
  next helems =>
  cases h
  exact .aggregate (.set (Int.not_lt.1 hmax)) htext hval helems

theorem reading_of_parseMapFast (h : parseMapFast parse (0x25 :: data) = .ok (n, reply)) :
    Reading strtod parse (0x25 :: data) n reply := by
  rw [parseMapFast] at h
  split at h
  · cases h
  next hline =>
  obtain ⟨text, rest, htext, hval, rfl, rfl⟩ := parseIntegerLine_eq_ok hline
  split at h
  · cases h
  next hnonneg =>
  obtain ⟨length, rfl⟩ := Int.eq_ofNat_of_zero_le (Int.not_lt.1 hnonneg)
  split at h
  · cases h
  next hmax =>
  rw [drop_line, parsePairs_eq] at h
  simp only [Int.toNat_natCast] at h
  cases helems : parseElements parse (2 * length) rest with
  | error error =>
    rw [helems] at h
    cases h
  | ok result =>
  rw [helems] at h
  cases h
  exact .aggregate (.map (Int.not_lt.1 hmax)) htext hval helems

/-- A reply was read as the grammar says, or a line end was taken for the text of a simple
string. -/
theorem reading_of_parseReply (h : parseReply strtod parse data = .ok (n, reply)) :
    Reading strtod parse data n reply := by
  unfold parseReply at h
  split at h
  · cases h
  split at h
  · exact reading_of_parseSimpleStringFast (by decide) h
  · exact reading_of_parseErrorFast h
  · exact reading_of_parseIntegerFast h
  · exact reading_of_parseBulkStringFast (by decide) h
  · exact reading_of_parseArrayFast (by decide) h
  · exact reading_of_parseDoubleFast h
  · exact reading_of_parseBooleanFast h
  · exact reading_of_parseMapFast h
  · exact reading_of_parseSetFast h
  · exact reading_of_parseArrayFast (by decide) h
  · exact reading_of_parseBulkStringFast (by decide) h
  · exact reading_of_parseSimpleStringFast (by decide) h
  · exact reading_of_parseBulkStringFast (by decide) h
  cases h

end Kinds

/-! ## Parts that are taken for something else -/

section Exposed

variable {α : Type} {before after : Bool} {replies : List (RedisReply δ)} {wire wires rest : Bytes}

/-- A part of the bytes gives an error, or a result that leaves a carriage return behind. -/
def Exposed (read : Bytes → Except ParseError (Nat × α)) (wire : Bytes) : Prop :=
  ∃ cut rest, cut ++ rest = wire ∧ rest ≠ [] ∧
    ((∃ error, error ≠ .Incomplete ∧ read cut = .error error) ∨
      ∃ front result, cut = front ++ [0x0D] ∧ read cut = .ok (front.length, result))

theorem Exposed.not_incomplete {read : Bytes → Except ParseError (Nat × α)}
    (h : Exposed read wire) :
    ∃ cut rest, cut ++ rest = wire ∧ rest ≠ [] ∧ read cut ≠ .error .Incomplete := by
  obtain ⟨cut, rest, hcut, hrest, ⟨error, hne, hread⟩ | ⟨front, result, rfl, hread⟩⟩ := h
  · refine ⟨cut, rest, hcut, hrest, fun h => hne ?_⟩
    rw [hread] at h
    cases h
    rfl
  refine ⟨_, rest, hcut, hrest, fun h => ?_⟩
  rw [hread] at h
  cases h

theorem Replies.cons {empty : Bool} (hfirst : Replies strtod before [reply] wire empty)
    (htail : Replies strtod empty replies wires after) :
    Replies strtod before (reply :: replies) (wire ++ wires) after := by
  cases hfirst with
  | leaf hleaf hnil =>
    cases hnil
    rw [append_nil]
    exact .leaf hleaf htail
  | aggregate haggregate htext hval helems hnil =>
  cases hnil
  rw [append_nil]
  exact .aggregate haggregate htext hval helems htail

theorem Replies.read_one (hreply : Replies strtod before [reply] wire after)
    (hrest : after → ¬ isCrlfAt rest 0) :
    parseFast strtod (wire ++ rest) = .ok (wire.length, reply) := by
  cases hreply with
  | leaf hleaf hnil =>
    cases hnil
    rw [append_nil]
    exact hleaf.read_fast rest hrest
  | aggregate haggregate htext hval helems hnil =>
  cases hnil
  rw [append_nil]
  exact haggregate.read_fast htext hval (helems.read rest hrest)

theorem Replies.ne_nil (hreply : Replies strtod before [reply] wire after) : wire ≠ [] := by
  cases hreply with
  | leaf hleaf hnil => exact fun h => hleaf.ne_nil (List.append_eq_nil_iff.1 h).1
  | aggregate => exact nofun

/-- What one reply exposes, the replies that start with it expose. -/
theorem Exposed.first {count : Nat} (h : Exposed (parseFast strtod) wire) (wires : Bytes) :
    Exposed (parseElements (parseFast strtod) (count + 1)) (wire ++ wires) := by
  obtain ⟨cut, rest, hcut, hrest, hread⟩ := h
  refine ⟨cut, rest ++ wires, ?_, fun h => hrest (List.append_eq_nil_iff.1 h).1, ?_⟩
  · rw [← append_assoc, hcut]
  rcases hread with ⟨error, hne, hread⟩ | ⟨front, result, rfl, hread⟩
  · refine .inl ⟨error, hne, ?_⟩
    have hdata : cut ≠ [] := by
      rintro rfl
      cases hread
      exact hne rfl
    rw [parseElements, if_neg hdata, hread]
  have hdata : front ++ [0x0D] ≠ [] :=
    append_ne_nil_of_right_ne_nil _ (cons_ne_nil _ _)
  cases count with
  | zero =>
    refine .inr ⟨front, [result], rfl, ?_⟩
    rw [parseElements, if_neg hdata, hread]
    rfl
  | succ count =>
  refine .inl ⟨.InvalidType, by rintro ⟨⟩, ?_⟩
  rw [parseElements, if_neg hdata, hread]
  simp only [drop_left]
  rfl

theorem Exposed.tail {count : Nat} {empty : Bool}
    (hreply : Replies strtod before [reply] wire empty)
    (h : Exposed (parseElements (parseFast strtod) count) wires)
    (hwires : ¬ isCrlfAt (wires ++ rest) 0) :
    Exposed (parseElements (parseFast strtod) (count + 1)) (wire ++ wires) := by
  obtain ⟨cut, back, rfl, hback, hread⟩ := h
  have hfirst : parseFast strtod (wire ++ cut) = .ok (wire.length, reply) := by
    refine hreply.read_one fun _ hcrlf => hwires ?_
    rw [append_assoc, isCrlfAt_append (lt_length_of_isCrlfAt hcrlf)]
    exact hcrlf
  refine ⟨wire ++ cut, back, append_assoc .., hback, ?_⟩
  rw [parseElements_append hreply.ne_nil hfirst]
  rcases hread with ⟨error, hne, hread⟩ | ⟨front, result, rfl, hread⟩
  · refine .inl ⟨error, hne, ?_⟩
    rw [hread]
    rfl
  refine .inr ⟨wire ++ front, reply :: result, (append_assoc ..).symm, ?_⟩
  rw [hread, length_append]
  rfl

theorem Exposed.aggregate {marker : UInt8} {value : Int} {count : Nat} {text : Bytes}
    {build : List (RedisReply δ) → RedisReply δ} (haggregate : Aggregate marker value count build)
    (htext : Plain text) (hval : parseIntegerValue text = .ok value)
    (h : Exposed (parseElements (parseFast strtod) count) wire) :
    Exposed (parseFast strtod) (marker :: (text ++ CRLF ++ wire)) := by
  obtain ⟨cut, rest, rfl, hrest, hread⟩ := h
  have heq : parseFast strtod (marker :: (text ++ CRLF ++ cut)) =
      (parseElements (parseFast strtod) count cut).map fun result =>
        (text.length + 3 + result.1, build result.2) := by
    rw [parseFast_eq, haggregate.read htext hval]
  refine ⟨marker :: (text ++ CRLF ++ cut), rest, ?_, hrest, ?_⟩
  · rw [cons_append, append_assoc (text ++ CRLF)]
  rcases hread with ⟨error, hne, hread⟩ | ⟨front, result, rfl, hread⟩
  · refine .inl ⟨error, hne, ?_⟩
    rw [heq, hread]
    rfl
  refine .inr ⟨marker :: (text ++ CRLF ++ front), build result, ?_, ?_⟩
  · rw [cons_append, append_assoc (text ++ CRLF)]
  rw [heq, hread, ← cons_append, length_append, length_line]
  rfl

theorem exposed_misread {marker : UInt8} (hmark : marker ∈ ascii "+(") :
    Exposed (parseFast strtod) (marker :: (CRLF ++ CRLF)) := by
  have hleaf : Leaf strtod (.string .SimpleString []) (marker :: ([] ++ CRLF)) true :=
    .simple hmark nofun
  have hread : parseFast strtod (marker :: ([] ++ CRLF) ++ [0x0D]) =
      .ok ((marker :: ([] ++ CRLF)).length, .string .SimpleString []) :=
    hleaf.read_fast [0x0D] fun _ => nofun
  exact ⟨marker :: CRLF ++ [0x0D], [0x0A], rfl, nofun, .inr ⟨marker :: CRLF, _, rfl, hread⟩⟩

end Exposed

/-! ## The grammar or an exposed part -/

section Accepted

variable {n : Nat}

variable (strtod)

/-- What was read of one reply. -/
def Accepted (data : Bytes) (n : Nat) (reply : RedisReply δ) : Prop :=
  ∃ wire rest, data = wire ++ rest ∧ wire.length = n ∧
    ((∃ after, ∀ before, Replies strtod before [reply] wire after) ∨
      Exposed (parseFast strtod) wire)

/-- What was read of some replies. -/
def AcceptedRow (count : Nat) (data : Bytes) (n : Nat) (replies : List (RedisReply δ)) : Prop:=
  ∃ wire rest, data = wire ++ rest ∧ wire.length = n ∧ replies.length = count ∧
    ((∀ before, ∃ after, Replies strtod before replies wire after) ∨
      Exposed (parseElements (parseFast strtod) count) wire)

variable {strtod}

theorem not_isCrlfAt_of_parseElements {count : Nat} {data : Bytes} {replies : List (RedisReply δ)}
    (h : parseElements (parseFast strtod) (count + 1) data = .ok (n, replies)) :
    ¬ isCrlfAt data 0 := by
  intro hcrlf
  have hsplit : data = 0x0D :: 0x0A :: data.drop 2 := split_of_isCrlfAt hcrlf
  rw [hsplit, parseElements, if_neg (cons_ne_nil _ _), parseFast_eq] at h
  cases h

theorem not_exposed_nil {α : Type} {read : Bytes → Except ParseError (Nat × α)} :
    ¬ Exposed read [] := by
  rintro ⟨cut, rest, hcut, hrest, -⟩
  exact hrest (List.append_eq_nil_iff.1 hcut).2

theorem acceptedRow_of_parseElements {count : Nat} {data : Bytes} {replies : List (RedisReply δ)}
    (hacc : ∀ (data' : Bytes) n reply, data'.length ≤ data.length →
      parseFast strtod data' = .ok (n, reply) → Accepted strtod data' n reply)
    (h : parseElements (parseFast strtod) count data = .ok (n, replies)) :
    AcceptedRow strtod count data n replies := by
  induction count generalizing data n replies with
  | zero =>
    cases h
    exact ⟨[], data, rfl, rfl, rfl, .inl fun before => ⟨before, .nil⟩⟩
  | succ count ih =>
  rw [parseElements] at h
  split at h
  · cases h
  split at h
  · cases h
  next consumed reply hfirst =>
  split at h
  · cases h
  next consumed' replies' htail =>
  cases h
  obtain ⟨wire, rest, rfl, rfl, hread⟩ := hacc data _ _ (Nat.le_refl _) hfirst
  rw [drop_left] at htail
  have hrow := ih (fun data' n reply hle => hacc data' n reply
    (Nat.le_trans hle (by rw [length_append]; omega))) htail
  obtain ⟨wires, rest, rfl, rfl, hlen, hreads⟩ := hrow
  refine ⟨wire ++ wires, rest, (append_assoc ..).symm, length_append, by rw [length_cons, hlen], ?_⟩
  rcases hread with ⟨empty, hreply⟩ | hexposed
  · rcases hreads with hreps | hexposed
    · refine .inl fun before => ?_
      obtain ⟨after, hreps⟩ := hreps empty
      exact ⟨after, (hreply before).cons hreps⟩
    right
    cases count with
    | zero =>
      have hzero : 0 = wires.length := (Prod.mk.inj (Except.ok.inj htail)).1
      rw [List.length_eq_zero_iff.1 hzero.symm] at hexposed
      exact absurd hexposed not_exposed_nil
    | succ count =>
    exact .tail (hreply false) hexposed (not_isCrlfAt_of_parseElements htail)
  exact .inr (hexposed.first wires)

theorem accepted_of_parseFast {data : Bytes} (h : parseFast strtod data = .ok (n, reply)) :
    Accepted strtod data n reply := by
  induction hlen : data.length using Nat.strongRecOn generalizing data n reply with
  | ind length ih =>
  subst hlen
  rw [parseFast_eq] at h
  cases reading_of_parseReply h with
  | @leaf wire rest reply empty hleaf =>
    refine ⟨wire, rest, rfl, rfl, .inl ⟨empty, fun before => ?_⟩⟩
    have hreply : Replies strtod before [reply] (wire ++ []) empty := .leaf hleaf .nil
    rwa [append_nil] at hreply
  | @misread marker rest reply hmark =>
    refine ⟨marker :: (CRLF ++ CRLF), rest, ?_, rfl, .inr (exposed_misread hmark)⟩
    rw [cons_append, append_assoc]
  | @aggregate marker value count consumed text body build elements haggregate htext hval
      helems =>
    have hrow : AcceptedRow strtod count body consumed elements := by
      refine acceptedRow_of_parseElements (fun data' n reply hle hparse => ?_) helems
      refine ih data'.length ?_ hparse rfl
      rw [length_cons, length_append]
      omega
    obtain ⟨wire, rest, rfl, rfl, rfl, hreads⟩ := hrow
    refine ⟨marker :: (text ++ CRLF ++ wire), rest, ?_, ?_, ?_⟩
    · rw [cons_append, append_assoc (text ++ CRLF)]
    · rw [← cons_append, length_append, length_line]
    rcases hreads with hreps | hexposed
    · obtain ⟨after, hreps⟩ := hreps false
      refine .inl ⟨after, fun before => ?_⟩
      have hreply : Replies strtod before [build elements]
          (marker :: (text ++ CRLF ++ wire) ++ []) after :=
        .aggregate haggregate htext hval hreps .nil
      rwa [append_nil] at hreply
    exact .inr (hexposed.aggregate haggregate htext hval)

end Accepted

end Galay.Redis
