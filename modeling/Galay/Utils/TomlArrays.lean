import Galay.Utils.TomlStrings

/-!
# Arrays of strings

An array is written as an opening bracket, strings with commas between them and perhaps one behind the
last, and a closing bracket, with white space anywhere between these pieces. The bracket is found, and
the items are the strings.
-/

namespace Galay.Utils

open List
open Lib ParserDetail TomlParser

/-- The pieces between the brackets. -/
def innerPieces (trailing : Bool) : List TomlString → List Bytes
  | [] => []
  | [value] => value.written :: if trailing then [[0x2c]] else []
  | value :: values => value.written :: [0x2c] :: innerPieces trailing values

/-- Strings and commas. -/
def IsInner (piece : Bytes) : Prop := (∃ value : TomlString, piece = value.written) ∨ piece = [0x2c]

variable {piece text text' : Bytes} {pieces : List Bytes} {trailing : Bool}
  {values : List TomlString} {plain : UInt8 → Prop}

theorem isInner_of_mem (h : piece ∈ innerPieces trailing values) : IsInner piece := by
  induction values with
  | nil => cases h
  | cons value values ih =>
  cases values with
  | nil =>
    rcases List.mem_cons.1 h with rfl | h
    · exact .inl ⟨value, rfl⟩
    cases trailing with
    | false => cases h
    | true => exact .inr (List.mem_singleton.1 h)
  | cons value' values =>
  rcases List.mem_cons.1 h with rfl | h
  · exact .inl ⟨value, rfl⟩
  rcases List.mem_cons.1 h with rfl | h
  · exact .inr rfl
  exact ih h

theorem IsInner.solid (h : IsInner piece) : Solid isSpace piece := by
  obtain ⟨value, rfl⟩ | rfl := h
  · exact value.solid
  exact solid_singleton rfl

theorem passes_byte (hplain : plain c) (hdouble : c ≠ 0x22) (hsingle : c ≠ 0x27) :
    Passes plain {} [c] {} :=
  .outside (track_outside hdouble hsingle) rfl hplain .nil

theorem IsInner.passes (hcomma : plain 0x2c) (h : IsInner piece) : Passes plain {} piece {} := by
  obtain ⟨value, rfl⟩ | rfl := h
  · exact value.passes
  exact passes_byte hcomma (by decide) (by decide)

theorem ne_of_isSpace (h : isSpace c = true) (h' : isSpace c' = false) : c ≠ c' := by
  rintro rfl
  rw [h] at h'
  cases h'

theorem Spaced.passes (hspace : ∀ c, isSpace c = true → plain c)
    (hpieces : ∀ piece ∈ pieces, Passes plain {} piece {}) (h : Spaced isSpace pieces text) :
    Passes plain {} text {} := by
  induction h with
  | nil => exact .nil
  | blank hc _ ih =>
    exact .outside (track_outside (ne_of_isSpace hc rfl) (ne_of_isSpace hc rfl)) rfl
      (hspace _ hc) (ih hpieces)
  | piece _ ih =>
  exact (hpieces _ mem_cons_self).append
    (ih fun piece hpiece => hpieces piece (mem_cons_of_mem _ hpiece))

/-- Neither a bracket nor a comma is white space. -/
theorem Spaced.passes_inner (hinner : ∀ piece ∈ pieces, IsInner piece)
    (h : Spaced isSpace pieces text) : Passes (fun c => c ≠ 0x5b ∧ c ≠ 0x5d) {} text {} :=
  Spaced.passes (fun _ hc => ⟨ne_of_isSpace hc rfl, ne_of_isSpace hc rfl⟩)
    (fun piece hpiece => (hinner piece hpiece).passes (by decide)) h

/-! ## The closing bracket -/

theorem hasClosedArrayValue_open (hinner : ∀ piece ∈ pieces, IsInner piece)
    (h : Spaced isSpace pieces text) : hasClosedArrayValue (0x5b :: text) = false := by
  have hsolid : ∀ piece ∈ [0x5b] :: pieces, Solid isSpace piece := by
    intro piece hpiece
    rcases List.mem_cons.1 hpiece with rfl | hpiece
    · exact solid_singleton rfl
    exact (hinner piece hpiece).solid
  have hopen : Spaced isSpace ([0x5b] :: pieces) ([0x5b] ++ text) := .piece h
  obtain ⟨rest, htrim, hrest⟩ := hopen.trim_cons hsolid
  have hpass := (Spaced.passes_inner hinner hrest).closes (fun _ hc => hc) 1 []
  rw [append_nil] at hpass
  rw [singleton_append] at htrim
  rw [hasClosedArrayValue, ParserDetail.trim, htrim]
  exact hpass

theorem trim_brackets (text : Bytes) :
    ParserDetail.trim (0x5b :: (text ++ [0x5d])) = 0x5b :: (text ++ [0x5d]) :=
  trim_of_solid ((solid_singleton (c := 0x5b) rfl).append (solid_singleton (c := 0x5d) rfl) text)

theorem hasClosedArrayValue_closed (hinner : ∀ piece ∈ pieces, IsInner piece)
    (h : Spaced isSpace pieces text) : hasClosedArrayValue (0x5b :: (text ++ [0x5d])) = true := by
  have hpass := (Spaced.passes_inner hinner h).closes (fun _ hc => hc) 1 [0x5d]
  rw [hasClosedArrayValue, trim_brackets]
  exact hpass

/-! ## The items -/

/-- The items that the split gives: behind a trailing comma it finds an empty one. -/
theorem splitItems_inner (hne : values ≠ [])
    (h : Spaced isSpace (innerPieces trailing values) text) :
    splitItems Quotes.track {} [] text =
      values.map TomlString.written ++ if trailing then [[]] else [] := by
  have hstring : ∀ {value : TomlString} {front : Bytes}, Spaced isSpace [value.written] front →
      ∀ back, splitItems Quotes.track {} [] (front ++ back) =
        splitItems Quotes.track {} front back ∧ trim front = value.written := by
    intro value front hfront back
    have hpass : Passes (· ≠ 0x2c) {} front {} := Spaced.passes (fun _ hc => ne_of_isSpace hc rfl)
      (fun piece hpiece => by
        rw [List.mem_singleton.1 hpiece]
        exact value.passes) hfront
    exact ⟨hpass.splitItems (fun _ hc => hc) [] back, hfront.trim_single value.solid⟩
  -- A string, white space and a comma.
  have hcomma : ∀ {value : TomlString} {rest : List Bytes} {text : Bytes},
      Spaced isSpace (value.written :: [0x2c] :: rest) text → ∃ back, Spaced isSpace rest back ∧
        splitItems Quotes.track {} [] text =
          value.written :: splitItems Quotes.track {} [] back := by
    intro value rest text h
    have hparts : Spaced isSpace ([value.written] ++ [0x2c] :: rest) text := h
    obtain ⟨front, tail, rfl, hfront, htail⟩ := hparts.append_split
    obtain ⟨before, back, rfl, hbefore, hback⟩ := htail.cons_split
    have hspaced : Spaced isSpace [value.written] (front ++ before) := by
      have happend := hfront.append (spaced_nil_iff.2 hbefore)
      rwa [append_nil] at happend
    obtain ⟨hsplit, htrim⟩ := hstring hspaced (0x2c :: back)
    refine ⟨back, hback, ?_⟩
    rw [← append_assoc, ← append_assoc, append_assoc (front ++ before)]
    refine hsplit.trans ?_
    rw [splitItems, track_outside (by decide) (by decide)]
    dsimp only
    rw [if_pos ⟨rfl, rfl⟩, htrim]
  induction values generalizing text with
  | nil => exact absurd rfl hne
  | cons value values ih =>
  cases values with
  | nil =>
    cases trailing with
    | false =>
      obtain ⟨hsplit, htrim⟩ := hstring h []
      rw [append_nil] at hsplit
      rw [hsplit, splitItems, htrim]
      rfl
    | true =>
    obtain ⟨back, hback, hsplit⟩ := @hcomma value [] text h
    have hnone : splitItems Quotes.track {} [] back = [[]] := by
      have hpass : Passes (· ≠ 0x2c) {} back {} :=
        Spaced.passes (fun _ hc => ne_of_isSpace hc rfl) (fun _ hpiece => by cases hpiece) hback
      have hitems := hpass.splitItems (fun _ hc => hc) [] []
      rw [append_nil] at hitems
      rw [hitems, splitItems, nil_append]
      exact congrArg (· :: []) (trim_blanks (spaced_nil_iff.1 hback))
    rw [hsplit, hnone]
    rfl
  | cons value' values =>
  obtain ⟨back, hback, hsplit⟩ := hcomma h
  rw [hsplit, ih (cons_ne_nil _ _) hback]
  rfl

theorem innerPieces_trailing (hne : values ≠ []) :
    ∃ pieces, innerPieces true values = pieces ++ [[0x2c]] := by
  induction values with
  | nil => exact absurd rfl hne
  | cons value values ih =>
  cases values with
  | nil => exact ⟨[value.written], rfl⟩
  | cons value' values =>
  obtain ⟨pieces, hpieces⟩ := ih (cons_ne_nil _ _)
  refine ⟨value.written :: [0x2c] :: pieces, ?_⟩
  show value.written :: [0x2c] :: innerPieces true (value' :: values) = _
  rw [hpieces]
  rfl

theorem normalizeItems_written (lineNum : Nat)
    (hkind : arrayKind = .unknown ∨ arrayKind = .string) (values : List TomlString) :
    normalizeItems lineNum arrayKind (values.map TomlString.written) =
      .ok (values.map TomlString.read) := by
  induction values generalizing arrayKind with
  | nil => rfl
  | cons value values ih =>
  rw [map_cons, normalizeItems, value.scalarKind, value.normalizeScalar, if_neg nofun, if_neg, ih (.inr rfl)]
  · rfl
  rintro ⟨hknown, hother⟩
  exact hkind.elim hknown hother

theorem normalizeValue_array (lineNum : Nat)
    (h : Spaced isSpace (innerPieces trailing values) text) :
    normalizeValue (0x5b :: (text ++ [0x5d])) lineNum =
      .ok ([0x2c].intercalate (values.map TomlString.read), values.map TomlString.read) := by
  have hsolid : ∀ piece ∈ innerPieces trailing values, Solid isSpace piece := fun piece hpiece =>
    (isInner_of_mem hpiece).solid
  have hbody : body (0x5b :: (text ++ [0x5d])) = text := by
    rw [body, drop_one, tail_cons, dropLast_concat]
  have hlast : (0x5b :: (text ++ [0x5d])).getLast? = some 0x5d := by
    rw [← cons_append, getLast?_concat]
  have hhead : (0x5b :: (text ++ [0x5d])).head? = some 0x5b := rfl
  rw [normalizeValue, if_neg (cons_ne_nil _ _), if_pos hhead, if_neg (fun hne => hne hlast), hbody]
  rcases eq_nil_or_concat values with rfl | ⟨init, last, hconcat⟩
  · have htrim : trim text = [] := trim_blanks (spaced_nil_iff.1 h)
    rw [if_pos htrim]
    rfl
  have hne : values ≠ [] := by
    rw [hconcat, concat_eq_append]
    exact concat_ne_nil last init
  have hpieces : innerPieces trailing values ≠ [] := by
    obtain ⟨value, values, rfl⟩ := exists_cons_of_ne_nil hne
    cases values with
    | nil => exact cons_ne_nil _ _
    | cons value' values => exact cons_ne_nil _ _
  have htrim : trim text ≠ [] := h.trim_ne_nil hpieces hsolid
  have hnests : hasNestedArray text = false :=
    (Spaced.passes_inner (fun _ hpiece => isInner_of_mem hpiece) h).nests fun _ hc => hc
  have hsplit : splitTomlArrayItems text =
      values.map TomlString.written ++ if trailing then [[]] else [] := by
    rw [splitTomlArrayItems, if_neg htrim, splitItems_inner hne h]
  have hitems : (if (splitTomlArrayItems text).getLast? = some [] ∧
      (trim text).getLast? = some 0x2c then (splitTomlArrayItems text).dropLast
      else splitTomlArrayItems text) = values.map TomlString.written := by
    rw [hsplit]
    cases trailing with
    | true =>
      obtain ⟨pieces, hlastPiece⟩ := innerPieces_trailing hne
      rw [hlastPiece] at h hsolid
      obtain ⟨rest, hrest, _⟩ := h.trim_concat hsolid
      have hcomma : (trim text).getLast? = some 0x2c := by
        rw [ParserDetail.trim, hrest, getLast?_concat]
      rw [if_pos rfl, if_pos ⟨getLast?_concat .., hcomma⟩, dropLast_concat]
    | false =>
    rw [if_neg Bool.false_ne_true, append_nil, if_neg]
    rintro ⟨hempty, _⟩
    rw [hconcat, concat_eq_append, map_append, map_singleton, getLast?_concat] at hempty
    exact last.solid.ne_nil (Option.some.inj hempty)
  rw [if_neg htrim, hnests, if_neg Bool.false_ne_true]
  dsimp only
  rw [hitems, normalizeItems_written lineNum (.inl rfl)]
  rfl

end Galay.Utils
