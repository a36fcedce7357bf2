import Galay.Utils.TomlArrays

/-!
# Documents of strings and arrays of strings

A document is a list of lines without text, of keys with a string and of keys with an array, on one
line or on several. It is parsed, and every value is what it denotes exactly when no string uses an
escape that is not decoded.
-/

namespace Galay.Utils

open List
open Lib ParserDetail TomlParser

inductive TomlEntry
  | blank
  | scalar (key : Bytes) (value : TomlString)
  | array (key : Bytes) (values : List TomlString)

namespace TomlEntry

def key? : TomlEntry → Option Bytes
  | blank => none
  | scalar key _ => some key
  | array key _ => some key

def Decoded : TomlEntry → Prop
  | blank => True
  | scalar _ value => value.Decoded
  | array _ values => ∀ value ∈ values, value.Decoded

/-- The parser gives what the entry denotes. -/
def ReadBack (parser : TomlParser) : TomlEntry → Prop
  | blank => True
  | scalar key value => parser.getValue key = some value.denoted
  | array key values => parser.getArray key = values.map TomlString.denoted

/-- The parser with what is read of the entry. -/
def store (parser : TomlParser) : TomlEntry → TomlParser
  | blank => parser
  | scalar key value => { parser with values := parser.values ++ [(key, value.read)] }
  | array key values =>
    { parser with
      values := parser.values ++ [(key, [0x2c].intercalate (values.map TomlString.read))]
      arrays := parser.arrays ++ [(key, values.map TomlString.read)] }

end TomlEntry

/-! ## Lines -/

/-- Nothing or a comment. -/
inductive TomlComment : Bytes → Prop
  | none : TomlComment []
  | text (text : Bytes) : TomlComment (0x23 :: text)

/-- The lines of the pieces of an array that are not on its first line. The last one holds some. -/
inductive TomlRows : List Bytes → List Bytes → Prop
  | last {pieces : List Bytes} {text comment : Bytes} (h : Spaced isSpace pieces text)
    (hne : pieces ≠ []) (hc : TomlComment comment) : TomlRows pieces [text ++ comment]
  | more {front pieces : List Bytes} {text comment : Bytes} {lines : List Bytes}
    (h : Spaced isSpace front text) (hc : TomlComment comment) (hs : TomlRows pieces lines) :
    TomlRows (front ++ pieces) ((text ++ comment) :: lines)

inductive TomlWrites : TomlEntry → List Bytes → Prop
  | blank {text comment : Bytes} (h : Spaced isSpace [] text) (hc : TomlComment comment) :
    TomlWrites .blank [text ++ comment]
  | scalar {key : Bytes} {value : TomlString} {text comment : Bytes}
    (h : Spaced isSpace [key, [0x3d], value.written] text) (hc : TomlComment comment) :
    TomlWrites (.scalar key value) [text ++ comment]
  | arrayLine {key : Bytes} {values : List TomlString} {trailing : Bool} {text comment : Bytes}
    (h : Spaced isSpace (key :: [0x3d] :: [0x5b] :: (innerPieces trailing values ++ [[0x5d]])) text)
    (hc : TomlComment comment) : TomlWrites (.array key values) [text ++ comment]
  | arrayLines {key : Bytes} {values : List TomlString} {trailing : Bool} {text comment : Bytes}
    {front pieces lines : List Bytes}
    (hpieces : front ++ pieces = innerPieces trailing values ++ [[0x5d]])
    (h : Spaced isSpace (key :: [0x3d] :: [0x5b] :: front) text) (hc : TomlComment comment)
    (hs : TomlRows pieces lines) : TomlWrites (.array key values) ((text ++ comment) :: lines)

inductive TomlDocument : List TomlEntry → List Bytes → Prop
  | nil : TomlDocument [] []
  | cons {entry : TomlEntry} {entries : List TomlEntry} {lines lines' : List Bytes}
    (h : TomlWrites entry lines) (hs : TomlDocument entries lines') :
    TomlDocument (entry :: entries) (lines ++ lines')

/-! ## Keys -/

def isKeyByte (c : UInt8) : Bool := c == 0x2e || isAlnum c || c == 0x5f || c == 0x2d

/-- A byte of a key means nothing to a scanner. -/
theorem plain_of_isKeyByte (h : isKeyByte c = true) : isSpace c = false ∧ c ≠ 0x22 ∧
    c ≠ 0x23 ∧ c ≠ 0x27 ∧ c ≠ 0x3d ∧ c ≠ 0x5b := by
  have hall : ∀ n : Fin 256, isKeyByte (UInt8.ofNat n) = true →
      isSpace (UInt8.ofNat n) = false ∧ UInt8.ofNat n ≠ 0x22 ∧ UInt8.ofNat n ≠ 0x23 ∧
        UInt8.ofNat n ≠ 0x27 ∧ UInt8.ofNat n ≠ 0x3d ∧ UInt8.ofNat n ≠ 0x5b := by
    decide +kernel
  have hbyte := hall ⟨c.toNat, c.toNat_lt⟩
  rw [UInt8.ofNat_toNat] at hbyte
  exact hbyte h

theorem isKeyByte_of_isValidKeyFrom (h : isValidKeyFrom previousDot key = true) (hc : c ∈ key) :
    isKeyByte c = true := by
  induction key generalizing previousDot with
  | nil => cases hc
  | cons c' key ih =>
  rw [isValidKeyFrom] at h
  split at h
  · next hdot =>
    rcases List.mem_cons.1 hc with rfl | hc
    · rw [hdot]
      rfl
    exact ih (Bool.and_eq_true_iff.1 h).2 hc
  obtain ⟨hbyte, hrest⟩ := Bool.and_eq_true_iff.1 h
  rcases List.mem_cons.1 hc with rfl | hc
  · rw [isKeyByte, Bool.or_assoc, Bool.or_assoc, ← Bool.or_assoc (isAlnum c), hbyte, Bool.or_true]
  exact ih hrest hc

section

variable {key : Bytes} (h : isValidKey key = true)
include h

theorem isKeyByte_of_isValidKey (hc : c ∈ key) : isKeyByte c = true := by
  rw [isValidKey, Bool.and_eq_true] at h
  exact isKeyByte_of_isValidKeyFrom h.2 hc

theorem ne_nil_of_isValidKey : key ≠ [] := by
  rintro rfl
  cases h

theorem solid_of_isValidKey : Solid isSpace key where
  ne_nil := ne_nil_of_isValidKey h
  head _ hc := (plain_of_isKeyByte (isKeyByte_of_isValidKey h (mem_of_mem_head? hc))).1
  last _ hc := (plain_of_isKeyByte (isKeyByte_of_isValidKey h (mem_of_getLast? hc))).1

theorem passes_of_isValidKey : Passes (· ≠ 0x23) {} key {} := by
  have hbytes : ∀ c ∈ key, isKeyByte c = true := fun c hc => isKeyByte_of_isValidKey h hc
  clear h
  induction key with
  | nil => exact .nil
  | cons c key ih =>
  obtain ⟨_, hdouble, hcomment, hsingle, _⟩ := plain_of_isKeyByte (hbytes c mem_cons_self)
  exact .outside (track_outside hdouble hsingle) rfl hcomment
    (ih fun c' hc' => hbytes c' (mem_cons_of_mem c hc'))

end

/-! ## A line without its comment -/

theorem stripTomlInlineComment_append (h : Passes (· ≠ 0x23) {} text {})
    (hc : TomlComment comment) : stripTomlInlineComment (text ++ comment) = trim text := by
  have hnone : uncommented {} comment = [] := by
    cases hc with
    | none => rfl
    | text comment => rfl
  rw [stripTomlInlineComment, h.uncommented (fun _ hne => hne), hnone, append_nil]

theorem trim_keyLine {text : Bytes} {pieces : List Bytes} (hkey : isValidKey key = true)
    (hsolid : ∀ piece ∈ pieces, Solid isSpace piece)
    (h : Spaced isSpace (key :: [0x3d] :: pieces) text) :
    ∃ blanks raw, trim text = key ++ blanks ++ 0x3d :: raw ∧ (∀ c ∈ blanks, isSpace c = true) ∧
      Spaced isSpace pieces raw := by
  have hall : ∀ piece ∈ key :: [0x3d] :: pieces, Solid isSpace piece := by
    intro piece hpiece
    rcases List.mem_cons.1 hpiece with rfl | hpiece
    · exact solid_of_isValidKey hkey
    rcases List.mem_cons.1 hpiece with rfl | hpiece
    · exact solid_singleton rfl
    exact hsolid piece hpiece
  obtain ⟨rest, htrim, hrest⟩ := h.trim_cons hall
  obtain ⟨blanks, raw, rfl, hblanks, hraw⟩ := hrest.cons_split
  refine ⟨blanks, raw, ?_, hblanks, hraw⟩
  rw [ParserDetail.trim, htrim]
  simp only [append_assoc, singleton_append]

namespace TomlParser.Parse

variable {state : Parse} {lineNum : Nat} {text comment : Bytes} {pieces : List Bytes}

theorem line_blank (h : Spaced isSpace [] text) (hc : TomlComment comment) :
    state.line lineNum (text ++ comment) = .ok state := by
  have hpass : Passes (· ≠ 0x23) {} text {} :=
    Spaced.passes (fun _ hc => ne_of_isSpace hc rfl) (fun _ hpiece => by cases hpiece) h
  have hnil : trim text = [] := trim_blanks (spaced_nil_iff.1 h)
  rw [line, stripTomlInlineComment_append hpass hc, hnil]
  cases hpend : state.pendingArray with
  | none => exact if_pos rfl
  | some pending => exact if_pos rfl

theorem line_key (state : Parse) (lineNum : Nat) (hkey : isValidKey key = true) (hpend : state.pendingArray = none)
    (hsolid : ∀ piece ∈ pieces, Solid isSpace piece)
    (hpasses : ∀ piece ∈ pieces, Passes (· ≠ 0x23) {} piece {})
    (h : Spaced isSpace (key :: [0x3d] :: pieces) text) (hc : TomlComment comment) :
    ∃ raw, Spaced isSpace pieces raw ∧ state.line lineNum (text ++ comment) =
      if (trim raw).head? = some 0x5b ∧ !hasClosedArrayValue (trim raw) then .ok { state with
          pendingArray := some
            { key, currentSection := state.currentSection, value := trim raw, lineNum } } else do
        let parser ← state.parser.storeValue state.currentSection key (trim raw) lineNum
        return { state with parser } := by
  have hpass : Passes (· ≠ 0x23) {} text {} := by
    refine Spaced.passes (fun _ hc => ne_of_isSpace hc rfl) (fun piece hpiece => ?_) h
    rcases List.mem_cons.1 hpiece with rfl | hpiece
    · exact passes_of_isValidKey hkey
    rcases List.mem_cons.1 hpiece with rfl | hpiece
    · exact passes_byte (by decide) (by decide) (by decide)
    exact hpasses piece hpiece
  obtain ⟨blanks, raw, htrim, hblanks, hraw⟩ := trim_keyLine hkey hsolid h
  refine ⟨raw, hraw, ?_⟩
  -- The first byte is one of the key, and the first `=` is behind it.
  have hbefore : ∀ c ∈ key ++ blanks, c ≠ 0x3d := by
    intro c hmem
    rcases List.mem_append.1 hmem with hmem | hmem
    · exact (plain_of_isKeyByte (isKeyByte_of_isValidKey hkey hmem)).2.2.2.2.1
    exact ne_of_isSpace (hblanks c hmem) rfl
  have htake : (key ++ blanks ++ 0x3d :: raw).takeWhile (· ≠ 0x3d) = key ++ blanks := by
    rw [takeWhile_append_of_pos fun c hmem => decide_eq_true (hbefore c hmem),
      takeWhile_cons_of_neg (by decide), append_nil]
  have hdrop : (key ++ blanks ++ 0x3d :: raw).dropWhile (· ≠ 0x3d) = 0x3d :: raw := by
    rw [dropWhile_append_of_pos fun c hmem => decide_eq_true (hbefore c hmem),
      dropWhile_cons_of_neg (by decide)]
  have hname : trim (key ++ blanks) = key := by
    have hsolidKey : Lib.trim isSpace ([] ++ key ++ blanks) = key :=
      trim_solid nofun (solid_of_isValidKey hkey) hblanks
    rwa [nil_append] at hsolidKey
  have hfirst : (key ++ blanks ++ 0x3d :: raw).head? ≠ some 0x5b := by
    obtain ⟨c, rest, rfl⟩ := exists_cons_of_ne_nil (ne_nil_of_isValidKey hkey)
    intro hhead
    exact (plain_of_isKeyByte (isKeyByte_of_isValidKey hkey mem_cons_self)).2.2.2.2.2
      (Option.some.inj hhead)
  have hequal : (key ++ blanks ++ 0x3d :: raw).contains 0x3d = true :=
    List.contains_iff_mem.2 (mem_append_right _ mem_cons_self)
  rw [line, hpend, stripTomlInlineComment_append hpass hc, htrim]
  dsimp only
  rw [if_neg (append_ne_nil_of_right_ne_nil _ (cons_ne_nil _ _)),
    if_neg fun hsection => hfirst hsection.1, valueLine, hequal, if_neg nofun, htake, hdrop, hname,
    if_neg (ne_nil_of_isValidKey hkey), hkey, if_neg nofun, drop_one, tail_cons, hpend]

end TomlParser.Parse

end Galay.Utils
