import Galay.Utils.TomlDocuments

/-!
# What is read of a document

The lines of an entry store it. A document whose keys do not conflict is stored entry by entry, and a
lookup finds each.
-/

namespace Galay.Utils

open List
open Lib ParserDetail TomlParser

namespace TomlParser

variable {parser : TomlParser} {key raw value : Bytes} {items : List Bytes}

theorem conflicts_self (key : Bytes) : conflicts key key = true := by
  rw [conflicts, beq_self_eq_true, Bool.true_or, Bool.true_or]

theorem getValue_of_fresh (h : parser.hasKeyConflict key = false) : parser.getValue key = none := by
  refine List.lookup_eq_none_iff.2 fun entry hentry => ?_
  rw [bne_iff_ne]
  rintro rfl
  have hno := List.any_eq_false.1 h entry hentry
  exact hno (conflicts_self entry.1)

theorem storeValue_eq (hfresh : parser.hasKeyConflict key = false) {lineNum : Nat}
    (h : normalizeValue raw lineNum = .ok (value, items)) :
    parser.storeValue [] key raw lineNum = .ok { parser with
      values := parser.values ++ [(key, value)]
      arrays := if raw.head? = some 0x5b then parser.arrays ++ [(key, items)] else parser.arrays } := by
  rw [storeValue, h]
  show (do
    if (parser.getValue key).isSome then throw (atLine "Duplicate TOML key" lineNum ++ ascii ": " ++ key)
    if parser.hasKeyConflict key then
      throw (atLine "TOML key conflicts with existing key" lineNum ++ ascii ": " ++ key)
    return _) = _
  rw [getValue_of_fresh hfresh, hfresh]
  rfl

theorem normalizeValue_scalar (string : TomlString) (lineNum : Nat) :
    normalizeValue string.written lineNum = .ok (string.read, []) := by
  have hhead : string.written.head? ≠ some 0x5b := by
    intro hopen
    obtain ⟨hhead, _⟩ | ⟨hhead, _⟩ := string.ends
    · cases hopen.symm.trans hhead
    cases hopen.symm.trans hhead
  rw [normalizeValue, if_neg string.solid.ne_nil, if_neg hhead, string.normalizeScalar]
  rfl

end TomlParser

namespace TomlParser.Parse

variable {state : Parse} {lineNum : Nat} {key text comment : Bytes}

/-- The state between entries, outside of sections. -/
def between (parser : TomlParser) : Parse := { parser }

theorem lines_cons {state' : Parse} {line : Bytes} (h : state.line lineNum line = .ok state')
    (lines : List Bytes) :
    state.lines lineNum (line :: lines) = state'.lines (lineNum + 1) lines := by
  rw [Parse.lines, h]

section

variable {parser : TomlParser} (hkey : isValidKey key = true)
  (hfresh : parser.hasKeyConflict key = false)
include hkey hfresh

theorem line_scalar {value : TomlString}
    (h : Spaced isSpace [key, [0x3d], value.written] text) (hc : TomlComment comment) :
    (between parser).line lineNum (text ++ comment) =
      .ok (between ((TomlEntry.scalar key value).store parser)) := by
  obtain ⟨raw, hraw, hline⟩ := line_key (between parser) lineNum hkey rfl
    (fun piece hpiece => by rw [List.mem_singleton.1 hpiece]; exact value.solid)
    (fun piece hpiece => by rw [List.mem_singleton.1 hpiece]; exact value.passes) h hc
  have htrim : trim raw = value.written := hraw.trim_single value.solid
  have hhead : value.written.head? ≠ some 0x5b := by
    intro hopen
    obtain ⟨hhead, _⟩ | ⟨hhead, _⟩ := value.ends
    · cases hopen.symm.trans hhead
    cases hopen.symm.trans hhead
  rw [hline, htrim, if_neg fun hboth => hhead hboth.1]
  have hstore := storeValue_eq hfresh (normalizeValue_scalar value lineNum)
  rw [if_neg hhead] at hstore
  show (do
    let parser ← parser.storeValue [] key value.written lineNum
    return { between parser with parser }) = _
  rw [hstore]
  rfl

end

/-! ## Arrays -/

/-- The pieces of an array that stand before some others end inside of the brackets. -/
theorem init_of_append {front pieces inner : List Bytes} (hne : pieces ≠ [])
    (h : front ++ pieces = inner ++ [[0x5d]]) :
    ∃ init, pieces = init ++ [[0x5d]] ∧ front ++ init = inner := by
  obtain hnil | ⟨init, last, rfl⟩ := eq_nil_or_concat pieces
  · exact absurd hnil hne
  rw [concat_eq_append, ← append_assoc] at h
  obtain ⟨hinit, hlast⟩ := append_inj' h rfl
  exact ⟨init, by rw [concat_eq_append, hlast], hinit⟩

theorem ne_nil_of_rows {pieces lines : List Bytes} (h : TomlRows pieces lines) : pieces ≠ [] := by
  induction h with
  | last _ hne _ => exact hne
  | more _ _ _ ih => exact append_ne_nil_of_right_ne_nil _ ih

/-- A piece inside of the brackets, or one of them. -/
def IsArrayPiece (piece : Bytes) : Prop := IsInner piece ∨ piece = [0x5b] ∨ piece = [0x5d]

theorem IsArrayPiece.solid {piece : Bytes} (h : IsArrayPiece piece) : Solid isSpace piece := by
  obtain hinner | rfl | rfl := h
  · exact hinner.solid
  · exact solid_singleton rfl
  exact solid_singleton rfl

theorem IsArrayPiece.passes {piece : Bytes} (h : IsArrayPiece piece) :
    Passes (· ≠ 0x23) {} piece {} := by
  obtain hinner | rfl | rfl := h
  · exact hinner.passes (by decide)
  · exact passes_byte (by decide) (by decide) (by decide)
  exact passes_byte (by decide) (by decide) (by decide)

theorem strip_arrayLine {pieces : List Bytes} (hpieces : ∀ piece ∈ pieces, IsArrayPiece piece)
    (h : Spaced isSpace pieces text) (hc : TomlComment comment) :
    stripTomlInlineComment (text ++ comment) = trim text :=
  stripTomlInlineComment_append (Spaced.passes (fun _ hc => ne_of_isSpace hc rfl)
    (fun piece hpiece => (hpieces piece hpiece).passes) h) hc

section

variable {parser : TomlParser} {trailing : Bool} {values : List TomlString}

theorem isArrayPiece_of_mem {piece : Bytes}
    (h : piece ∈ innerPieces trailing values ++ [[0x5d]]) : IsArrayPiece piece := by
  rcases List.mem_append.1 h with hinner | hclose
  · exact .inl (isInner_of_mem hinner)
  exact .inr (.inr (List.mem_singleton.1 hclose))

/-- The state with an array that is open. -/
def waiting (parser : TomlParser) (key value : Bytes) (lineNum : Nat) : Parse :=
  { parser, pendingArray := some { key, currentSection := [], value, lineNum } }

variable (hfresh : parser.hasKeyConflict key = false)
include hfresh

theorem storeValue_array (h : Spaced isSpace (innerPieces trailing values) text) :
    parser.storeValue [] key (0x5b :: (text ++ [0x5d])) lineNum =
      .ok ((TomlEntry.array key values).store parser) :=
  storeValue_eq hfresh (normalizeValue_array lineNum h)

theorem lines_rows {pieces lines front : List Bytes} (hrows : TomlRows pieces lines)
    (hpieces : front ++ pieces = innerPieces trailing values ++ [[0x5d]])
    (h : Spaced isSpace front text) (firstLine lineNum : Nat) (rest : List Bytes) :
    (waiting parser key (0x5b :: text) firstLine).lines lineNum (lines ++ rest) =
      (between ((TomlEntry.array key values).store parser)).lines (lineNum + lines.length) rest := by
  induction hrows generalizing front text lineNum with
  | @last pieces text' comment h' hne hc =>
    have hstrip := strip_arrayLine (fun piece hpiece => isArrayPiece_of_mem (hpieces ▸
      mem_append_right front hpiece)) h' hc
    have hsolid : ∀ piece ∈ pieces, Solid isSpace piece := fun piece hpiece =>
      (isArrayPiece_of_mem (hpieces ▸ mem_append_right front hpiece)).solid
    obtain ⟨init, rfl, hinner⟩ := init_of_append hne hpieces
    obtain ⟨back, htrim, hback⟩ := h'.trim_concat hsolid
    have hbody : Spaced isSpace (innerPieces trailing values) (text ++ 0x20 :: back) := by
      rw [← hinner]
      exact h.append (.blank rfl hback)
    have hval : 0x5b :: text ++ [0x20] ++ (back ++ [0x5d]) =
        0x5b :: ((text ++ 0x20 :: back) ++ [0x5d]) := by
      simp only [cons_append, append_assoc, nil_append]
    have hclosed := hasClosedArrayValue_closed (fun _ hpiece => isInner_of_mem hpiece) hbody
    have hline : (waiting parser key (0x5b :: text) firstLine).line lineNum (text' ++ comment) =
        .ok (between ((TomlEntry.array key values).store parser)) := by
      rw [line, hstrip, ParserDetail.trim, htrim]
      show pendingLine _ _ _ = _
      rw [pendingLine, if_neg (append_ne_nil_of_right_ne_nil _ (cons_ne_nil _ _))]
      dsimp only
      rw [hval, hclosed, if_pos rfl]
      show (do
        let parser ← parser.storeValue [] key _ firstLine
        return { waiting parser key (0x5b :: text) firstLine with
          parser, pendingArray := none }) = _
      rw [storeValue_array hfresh hbody]
      rfl
    exact lines_cons hline rest
  | @more front' pieces text' comment lines h' hc hs ih =>
  have hall : ∀ piece ∈ front', IsArrayPiece piece := fun piece hpiece =>
    isArrayPiece_of_mem (hpieces ▸ mem_append_right front (mem_append_left _ hpiece))
  have hstrip := strip_arrayLine hall h' hc
  have hsolid : ∀ piece ∈ front', Solid isSpace piece := fun piece hpiece =>
    (hall piece hpiece).solid
  rw [← append_assoc] at hpieces
  rw [length_cons, Nat.add_comm lines.length, ← Nat.add_assoc]
  rcases eq_or_ne (trim text') [] with hnil | hne
  · -- The line holds nothing.
    have hfront : front' = [] := by
      by_contra hne
      exact h'.trim_ne_nil hne hsolid hnil
    rw [hfront, append_nil] at hpieces
    refine (lines_cons ?_ _).trans (ih hpieces h (lineNum + 1))
    rw [line, hstrip, hnil]
    exact if_pos rfl
  obtain ⟨init, _, hinner⟩ := init_of_append (ne_nil_of_rows hs) hpieces
  have hspaced : Spaced isSpace (front ++ front') (text ++ 0x20 :: trim text') :=
    h.append (.blank rfl (h'.trim hsolid))
  have hopen : hasClosedArrayValue (0x5b :: (text ++ 0x20 :: trim text')) = false :=
    hasClosedArrayValue_open (fun piece hpiece => isInner_of_mem
      (hinner ▸ mem_append_left init hpiece)) hspaced
  have hval : 0x5b :: text ++ [0x20] ++ trim text' = 0x5b :: (text ++ 0x20 :: trim text') := by
    simp only [cons_append, append_assoc, nil_append]
  refine (lines_cons ?_ _).trans (ih hpieces hspaced (lineNum + 1))
  rw [line, hstrip]
  show pendingLine _ _ _ = _
  rw [pendingLine, if_neg hne]
  dsimp only
  rw [hval, hopen, if_neg (by rintro ⟨⟩)]
  rfl

variable (hkey : isValidKey key = true)
include hkey

theorem line_arrayLine
    (h : Spaced isSpace (key :: [0x3d] :: [0x5b] :: (innerPieces trailing values ++ [[0x5d]])) text)
    (hc : TomlComment comment) :
    (between parser).line lineNum (text ++ comment) =
      .ok (between ((TomlEntry.array key values).store parser)) := by
  have hall : ∀ piece ∈ [0x5b] :: (innerPieces trailing values ++ [[0x5d]]), IsArrayPiece piece := by
    intro piece hpiece
    rcases List.mem_cons.1 hpiece with rfl | hpiece
    · exact .inr (.inl rfl)
    exact isArrayPiece_of_mem hpiece
  obtain ⟨raw, hraw, hline⟩ := line_key (between parser) lineNum hkey rfl
    (fun piece hpiece => (hall piece hpiece).solid)
    (fun piece hpiece => (hall piece hpiece).passes) h hc
  obtain ⟨body, htrim, hbody⟩ := hraw.trim_ends (solid_singleton rfl) (solid_singleton rfl)
  have hval : trim raw = 0x5b :: (body ++ [0x5d]) := htrim
  have hclosed := hasClosedArrayValue_closed (fun _ hpiece => isInner_of_mem hpiece) hbody
  rw [hline, hval, hclosed, if_neg fun hboth => absurd hboth.2 (by decide)]
  show (do
    let parser ← parser.storeValue [] key _ lineNum
    return { between parser with parser }) = _
  rw [storeValue_array hfresh hbody]
  rfl

omit hfresh in
theorem line_arrayStart (parser : TomlParser) (lineNum : Nat) {front : List Bytes} (hinner : ∀ piece ∈ front, IsInner piece)
    (h : Spaced isSpace (key :: [0x3d] :: [0x5b] :: front) text) (hc : TomlComment comment) :
    ∃ value, Spaced isSpace front value ∧ (between parser).line lineNum (text ++ comment) =
      .ok (waiting parser key (0x5b :: value) lineNum) := by
  have hall : ∀ piece ∈ [0x5b] :: front, IsArrayPiece piece := by
    intro piece hpiece
    rcases List.mem_cons.1 hpiece with rfl | hpiece
    · exact .inr (.inl rfl)
    exact .inl (hinner piece hpiece)
  obtain ⟨raw, hraw, hline⟩ := line_key (between parser) lineNum hkey rfl
    (fun piece hpiece => (hall piece hpiece).solid)
    (fun piece hpiece => (hall piece hpiece).passes) h hc
  obtain ⟨value, htrim, hval⟩ := hraw.trim_cons fun piece hpiece => (hall piece hpiece).solid
  have hopen := hasClosedArrayValue_open hinner hval
  refine ⟨value, hval, ?_⟩
  have hraw' : trim raw = 0x5b :: value := htrim
  rw [hline, hraw', hopen]
  exact if_pos ⟨rfl, rfl⟩

end

/-! ## Entries -/

variable {parser : TomlParser} {entry : TomlEntry} {entries : List TomlEntry} {lines : List Bytes}

/-- The key is none of the keys that are stored, and conflicts with none. -/
structure Fresh (parser : TomlParser) (key : Bytes) : Prop where
  values : parser.hasKeyConflict key = false
  arrays : parser.arrays.lookup key = none

theorem ne_of_not_conflicts {key' : Bytes} (h : conflicts key' key = false) : key' ≠ key := by
  rintro rfl
  rw [conflicts_self] at h
  cases h

theorem Fresh.store (h : Fresh parser key)
    (hkeys : ∀ key', entry.key? = some key' → conflicts key' key = false) :
    Fresh (entry.store parser) key := by
  have hvalues : ∀ {key' : Bytes} (value : Bytes), conflicts key' key = false →
      (parser.values ++ [(key', value)]).any (fun pair => conflicts pair.1 key) = false := by
    intro key' value hno
    rw [any_append, any_cons, any_nil, hno, Bool.or_false, Bool.or_false]
    exact h.values
  cases entry with
  | blank => exact h
  | scalar key' value => exact ⟨hvalues value.read (hkeys key' rfl), h.arrays⟩
  | array key' values =>
  refine ⟨hvalues _ (hkeys key' rfl), ?_⟩
  have hne : (key == key') = false := beq_false_of_ne (ne_of_not_conflicts (hkeys key' rfl)).symm
  show List.lookup key (parser.arrays ++ [(key', _)]) = none
  rw [lookup_append, h.arrays, lookup_cons, hne]
  rfl

/-- The parser holds what is read of the entry. -/
def Stored (parser : TomlParser) : TomlEntry → Prop
  | .blank => True
  | .scalar key value => parser.getValue key = some value.read
  | .array key values => parser.arrays.lookup key = some (values.map TomlString.read)

theorem lookup_concat {α : Type} {list : List (Bytes × α)} {value : α}
    (h : list.lookup key = none) : (list ++ [(key, value)]).lookup key = some value := by
  rw [lookup_append, h, lookup_cons, beq_self_eq_true]
  rfl

theorem stored_store (h : ∀ key, entry.key? = some key → Fresh parser key) :
    Stored (entry.store parser) entry := by
  cases entry with
  | blank => trivial
  | scalar key value => exact lookup_concat (getValue_of_fresh (h key rfl).values)
  | array key values => exact lookup_concat (h key rfl).arrays

theorem Stored.store (h : Stored parser entry) (entry' : TomlEntry) :
    Stored (entry'.store parser) entry := by
  have hkept : ∀ {α : Type} {list : List (Bytes × α)} {value : α} {key : Bytes},
      list.lookup key = some value → ∀ last, (list ++ last).lookup key = some value := by
    intro α list value key hlook last
    rw [lookup_append, hlook]
    rfl
  cases entry' with
  | blank => exact h
  | scalar key' value' =>
    cases entry with
    | blank => trivial
    | scalar key value => exact hkept h _
    | array key values => exact h
  | array key' values' =>
  cases entry with
  | blank => trivial
  | scalar key value => exact hkept h _
  | array key values => exact hkept h _

theorem Stored.foldl (h : Stored parser entry) (entries : List TomlEntry) :
    Stored (entries.foldl TomlEntry.store parser) entry := by
  induction entries generalizing parser with
  | nil => exact h
  | cons entry' entries ih => exact ih (h.store entry')

theorem readBack_iff (h : Stored parser entry) : entry.ReadBack parser ↔ entry.Decoded := by
  cases entry with
  | blank => exact Iff.rfl
  | scalar key value =>
    have hval : parser.getValue key = some value.read := h
    rw [TomlEntry.ReadBack, hval, Option.some.injEq]
    exact value.read_eq_iff
  | array key values =>
  have hlook : parser.arrays.lookup key = some (values.map TomlString.read) := h
  rw [TomlEntry.ReadBack, getArray, hlook]
  dsimp only
  rw [map_inj_left]
  exact forall₂_congr fun value _ => value.read_eq_iff

/-! ## Documents -/

variable (parser)

theorem lines_entry (h : TomlWrites entry lines)
    (hkey : ∀ key, entry.key? = some key → isValidKey key = true ∧ Fresh parser key)
    (lineNum : Nat) (rest : List Bytes) :
    (between parser).lines lineNum (lines ++ rest) =
      (between (entry.store parser)).lines (lineNum + lines.length) rest := by
  cases h with
  | blank h hc => exact lines_cons (line_blank h hc) rest
  | scalar h hc =>
    obtain ⟨hvalid, hfresh⟩ := hkey _ rfl
    exact lines_cons (line_scalar hvalid hfresh.values h hc) rest
  | arrayLine h hc =>
    obtain ⟨hvalid, hfresh⟩ := hkey _ rfl
    exact lines_cons (line_arrayLine hfresh.values hvalid h hc) rest
  | @arrayLines _ _ _ _ _ front pieces lines hpieces h hc hs =>
  obtain ⟨hvalid, hfresh⟩ := hkey _ rfl
  obtain ⟨init, _, hinner⟩ := init_of_append (ne_nil_of_rows hs) hpieces
  obtain ⟨value, hval, hline⟩ := line_arrayStart hvalid parser lineNum
    (fun piece hpiece => isInner_of_mem (hinner ▸ mem_append_left init hpiece)) h hc
  refine (lines_cons hline (lines ++ rest)).trans ?_
  rw [length_cons, Nat.add_comm lines.length, ← Nat.add_assoc]
  exact lines_rows hfresh.values hs hpieces hval lineNum (lineNum + 1) rest

/-- The keys of a document. -/
def entryKeys (entries : List TomlEntry) : List Bytes := entries.filterMap TomlEntry.key?

theorem lines_document (h : TomlDocument entries lines)
    (hvalid : ∀ key ∈ entryKeys entries, isValidKey key = true)
    (hkeys : (entryKeys entries).Pairwise fun key key' => conflicts key key' = false)
    (hfresh : ∀ key ∈ entryKeys entries, Fresh parser key) (lineNum : Nat) :
    (between parser).lines lineNum lines = (true, entries.foldl TomlEntry.store parser) ∧
      ∀ entry ∈ entries, Stored (entries.foldl TomlEntry.store parser) entry := by
  induction h generalizing parser lineNum with
  | nil => exact ⟨rfl, nofun⟩
  | @cons entry entries lines lines' h hs ih =>
  have hmem : ∀ key, entry.key? = some key → key ∈ entryKeys (entry :: entries) := fun key hkey =>
    List.mem_filterMap.2 ⟨entry, mem_cons_self, hkey⟩
  have hrest : ∀ key ∈ entryKeys entries, key ∈ entryKeys (entry :: entries) := by
    intro key hkey
    obtain ⟨other, hother, hname⟩ := List.mem_filterMap.1 hkey
    exact List.mem_filterMap.2 ⟨other, mem_cons_of_mem entry hother, hname⟩
  have hapart : (∀ key, entry.key? = some key → ∀ key' ∈ entryKeys entries,
      conflicts key key' = false) ∧
      (entryKeys entries).Pairwise fun key key' => conflicts key key' = false := by
    rw [entryKeys, filterMap_cons] at hkeys
    cases hkey : entry.key? with
    | none =>
      rw [hkey] at hkeys
      exact ⟨nofun, hkeys⟩
    | some key =>
    rw [hkey] at hkeys
    obtain ⟨hfirst, hothers⟩ := List.pairwise_cons.1 hkeys
    refine ⟨fun key' hkey' => ?_, hothers⟩
    cases hkey'
    exact hfirst
  have hentry := lines_entry parser h
    (fun key hkey => ⟨hvalid key (hmem key hkey), hfresh key (hmem key hkey)⟩) lineNum lines'
  obtain ⟨hlines, hsto⟩ := ih (entry.store parser)
    (fun key hkey => hvalid key (hrest key hkey)) hapart.2
    (fun key hkey => (hfresh key (hrest key hkey)).store fun key' hkey' =>
      hapart.1 key' hkey' key hkey) (lineNum + lines.length)
  refine ⟨hentry.trans hlines, fun other hother => ?_⟩
  rcases List.mem_cons.1 hother with rfl | hother
  · exact (stored_store fun key hkey => hfresh key (hmem key hkey)).foldl entries
  exact hsto other hother

theorem lines_concat_nil (state : Parse) (lineNum : Nat) (texts : List Bytes) :
    state.lines lineNum (texts ++ [[]]) = state.lines lineNum texts := by
  induction texts generalizing state lineNum with
  | nil =>
    have hline : state.line lineNum ([] ++ []) = .ok state := line_blank .nil .none
    exact lines_cons hline []
  | cons text texts ih =>
  rw [cons_append, Parse.lines, Parse.lines]
  cases state.line lineNum text with
  | ok state' => exact ih state' (lineNum + 1)
  | error lastError => rfl

theorem lines_getlines (state : Parse) (lineNum : Nat) (hlines : ∀ line ∈ lines, 0x0a ∉ line) :
    state.lines lineNum (getlines ([0x0a].intercalate lines)) = state.lines lineNum lines := by
  rcases eq_nil_or_concat lines with rfl | ⟨init, last, rfl⟩
  · rfl
  rw [concat_eq_append] at hlines ⊢
  rw [getlines, splitOn_intercalate _ hlines (concat_ne_nil last init)]
  split
  · next hnil =>
    rw [getLast?_concat] at hnil
    cases hnil
    rw [dropLast_concat, lines_concat_nil]
  rfl

end TomlParser.Parse

namespace TomlParser

open Parse

variable {entries : List TomlEntry} {lines : List Bytes}

theorem parseString_stored (h : TomlDocument entries lines) (hlines : ∀ line ∈ lines, 0x0a ∉ line)
    (hvalid : ∀ key ∈ entryKeys entries, isValidKey key = true)
    (hkeys : (entryKeys entries).Pairwise fun key key' => conflicts key key' = false) :
    ∃ parser, parseString ([0x0a].intercalate lines) = (true, parser) ∧
      ∀ entry ∈ entries, Stored parser entry := by
  obtain ⟨hparse, hsto⟩ := lines_document {} h hvalid hkeys
    (fun _ _ => ⟨rfl, rfl⟩) 1
  exact ⟨_, (lines_getlines _ 1 hlines).trans hparse, hsto⟩

/-- A document of strings and arrays of strings is parsed, and an entry of it is read back as what it
denotes if and only if its strings use none of the escapes that are not decoded. -/
theorem parseString_document (h : TomlDocument entries lines)
    (hlines : ∀ line ∈ lines, 0x0a ∉ line)
    (hvalid : ∀ key ∈ entryKeys entries, isValidKey key = true)
    (hkeys : (entryKeys entries).Pairwise fun key key' => conflicts key key' = false) :
    ∃ parser, parseString ([0x0a].intercalate lines) = (true, parser) ∧
      ∀ entry ∈ entries, (entry.ReadBack parser ↔ entry.Decoded) := by
  obtain ⟨parser, hparse, hsto⟩ := parseString_stored h hlines hvalid hkeys
  exact ⟨parser, hparse, fun entry hentry => readBack_iff (hsto entry hentry)⟩

/-- A string and an array on three lines, with a comment and a comma behind the last item. -/
theorem parseString_document_three : ∃ parser,
    parseString (ascii "key = 'a#b' # c\nlist = [ \"x,\\t\", # '\n  '=]',\n]") = (true, parser) ∧
      parser.getValue (ascii "key") = some (ascii "a#b") ∧
      parser.getArray (ascii "list") = [[0x78, 0x2c, 0x09], ascii "=]"] := by
  let string : TomlString := .literal (ascii "a#b") (by decide)
  let item : TomlString := .basic [.literal 0x78 (by decide) (by decide),
    .literal 0x2c (by decide) (by decide), .escape .tab]
  let item' : TomlString := .literal (ascii "=]") (by decide)
  have hkey : Spaced isSpace [ascii "key", [0x3d], string.written] (ascii "key = 'a#b' ") :=
    .piece (.blank rfl (.piece (.blank rfl (.piece (.blank rfl .nil)))))
  have hlist : Spaced isSpace [ascii "list", [0x3d], [0x5b], item.written, [0x2c]]
      (ascii "list = [ \"x,\\t\", ") :=
    .piece (.blank rfl (.piece (.blank rfl (.piece (.blank rfl (.piece (.piece
      (.blank rfl .nil))))))))
  have hitem : Spaced isSpace [item'.written, [0x2c]] (ascii "  '=]',") :=
    .blank rfl (.blank rfl (.piece (.piece .nil)))
  have hscalar : TomlWrites (.scalar (ascii "key") string) [ascii "key = 'a#b' " ++ ascii "# c"] :=
    .scalar hkey (.text _)
  have hpieces : [item.written, [0x2c]] ++ ([item'.written, [0x2c]] ++ [[0x5d]]) =
      innerPieces true [item, item'] ++ [[0x5d]] := rfl
  have harray : TomlWrites (.array (ascii "list") [item, item'])
      [ascii "list = [ \"x,\\t\", " ++ ascii "# '", ascii "  '=]'," ++ [], [0x5d] ++ []] :=
    .arrayLines hpieces hlist (.text _)
      (.more hitem .none (.last (spaced_single [0x5d]) (by decide) .none))
  obtain ⟨parser, hparse, hread⟩ := parseString_document
    (.cons hscalar (.cons harray .nil)) (by decide) (by decide) (by decide)
  have hdecoded : (TomlEntry.array (ascii "list") [item, item']).Decoded := by
    intro value hval
    rcases List.mem_cons.1 hval with rfl | hval
    · intro c hc
      rcases List.mem_cons.1 hc with rfl | hc
      · trivial
      rcases List.mem_cons.1 hc with rfl | hc
      · trivial
      rw [List.mem_singleton.1 hc]
      exact ⟨nofun, nofun⟩
    rw [List.mem_singleton.1 hval]
    trivial
  refine ⟨parser, hparse, ?_, ?_⟩
  · exact (hread _ mem_cons_self).2 trivial
  · exact (hread _ (mem_cons_of_mem _ mem_cons_self)).2 hdecoded

/-- The escape of a backspace is read as it is written. -/
theorem not_readBack_backspace : ¬ ∀ (entries : List TomlEntry) (lines : List Bytes),
    TomlDocument entries lines → (∀ line ∈ lines, 0x0a ∉ line) →
    (∀ key ∈ entryKeys entries, isValidKey key = true) →
    ((entryKeys entries).Pairwise fun key key' => conflicts key key' = false) →
    ∃ parser, parseString ([0x0a].intercalate lines) = (true, parser) ∧
      ∀ entry ∈ entries, entry.ReadBack parser := by
  intro h
  have htext : Spaced isSpace [ascii "a", [0x3d], (TomlString.basic [.escape .backspace]).written]
      (ascii "a = \"\\b\"") :=
    .piece (.blank rfl (.piece (.blank rfl (.piece .nil))))
  have hscalar : TomlWrites (.scalar (ascii "a") (.basic [.escape .backspace]))
      [ascii "a = \"\\b\"" ++ []] :=
    .scalar htext .none
  obtain ⟨parser, hparse, hread⟩ := h _ _ (.cons hscalar .nil) (by decide) (by decide) (by decide)
  have hval : parser.getValue (ascii "a") = some [0x08] := hread _ mem_cons_self
  have hcomputed : (parseString (ascii "a = \"\\b\"")).2.getValue (ascii "a") =
      some [0x5c, 0x62] := by
    decide +kernel
  have hsame : parseString (ascii "a = \"\\b\"") = (true, parser) := hparse
  rw [hsame, hval] at hcomputed
  exact absurd hcomputed (by decide)

end TomlParser

end Galay.Utils
