import Mathlib.Data.List.Induction
import Galay.Utils.Toml

/-!
# Strings of a TOML document

A string is written in double quotes, with escapes, or in single quotes. The scanners all pass over a
string that is written so, and find themselves outside of quotes behind it. What is read of it is what
it denotes if it uses none of the escapes that are not decoded.
-/

namespace Galay.Utils

open List
open Lib ParserDetail TomlParser

/-! ## What is written, what it denotes and what is read -/

/-- The escapes of one letter. -/
inductive SimpleEscape
  | backspace | tab | newline | formFeed | carriageReturn | quote | backslash
  deriving DecidableEq, Repr

namespace SimpleEscape

def letter : SimpleEscape → UInt8
  | backspace => 0x62
  | tab => 0x74
  | newline => 0x6e
  | formFeed => 0x66
  | carriageReturn => 0x72
  | quote => 0x22
  | backslash => 0x5c

def byte : SimpleEscape → UInt8
  | backspace => 0x08
  | tab => 0x09
  | newline => 0x0a
  | formFeed => 0x0c
  | carriageReturn => 0x0d
  | quote => 0x22
  | backslash => 0x5c

end SimpleEscape

/-- A code point as so many digits. -/
structure CodePoint (count : Nat) where
  digits : Bytes
  length_eq : digits.length = count
  isDigit : ∀ c ∈ digits, Lib.isDigit 16 c = true
  valid : (digitsValue 16 digits).isValidChar

/-- The UTF-8 encoding of the code point. -/
def CodePoint.encoded {count : Nat} (point : CodePoint count) : Bytes :=
  String.utf8EncodeChar (Char.ofNat (digitsValue 16 point.digits))

/-- A character between double quotes. -/
inductive BasicChar
  | literal (byte : UInt8) (hquote : byte ≠ 0x22) (hbackslash : byte ≠ 0x5c)
  | escape (e : SimpleEscape)
  | short (point : CodePoint 4)
  | long (point : CodePoint 8)

namespace BasicChar

def written : BasicChar → Bytes
  | literal byte _ _ => [byte]
  | escape e => [0x5c, e.letter]
  | short point => 0x5c :: 0x75 :: point.digits
  | long point => 0x5c :: 0x55 :: point.digits

def denoted : BasicChar → Bytes
  | literal byte _ _ => [byte]
  | escape e => [e.byte]
  | short point => point.encoded
  | long point => point.encoded

/-- The escape is one that `processEscapes` decodes. -/
def Decoded : BasicChar → Prop
  | literal _ _ _ => True
  | escape e => e ≠ .backspace ∧ e ≠ .formFeed
  | short _ => False
  | long _ => False

/-- What `processEscapes` makes of what is written. -/
def read : BasicChar → Bytes
  | literal byte _ _ => [byte]
  | escape .backspace => [0x5c, 0x62]
  | escape .formFeed => [0x5c, 0x66]
  | escape e => [e.byte]
  | short point => 0x5c :: 0x75 :: point.digits
  | long point => 0x5c :: 0x55 :: point.digits

end BasicChar

inductive TomlString
  | basic (chars : List BasicChar)
  | literal (bytes : Bytes) (hquote : 0x27 ∉ bytes)

namespace TomlString

def written : TomlString → Bytes
  | basic chars => 0x22 :: (chars.flatMap BasicChar.written ++ [0x22])
  | literal bytes _ => 0x27 :: (bytes ++ [0x27])

def denoted : TomlString → Bytes
  | basic chars => chars.flatMap BasicChar.denoted
  | literal bytes _ => bytes

def Decoded : TomlString → Prop
  | basic chars => ∀ c ∈ chars, c.Decoded
  | literal _ _ => True

def read : TomlString → Bytes
  | basic chars => chars.flatMap BasicChar.read
  | literal bytes _ => bytes

end TomlString

/-! ## What is read is what is denoted -/

theorem processEscapes_cons (h : c ≠ 0x5c) (text : Bytes) :
    processEscapes (c :: text) = c :: processEscapes text := by
  cases text with
  | nil => rfl
  | cons letter text => rw [processEscapes, if_neg h]

theorem processEscapes_append (h : ∀ c ∈ digits, c ≠ 0x5c) (text : Bytes) :
    processEscapes (digits ++ text) = digits ++ processEscapes text := by
  induction digits with
  | nil => rfl
  | cons c digits ih =>
  rw [cons_append, processEscapes_cons (h c mem_cons_self),
    ih fun c' hc' => h c' (mem_cons_of_mem c hc'), cons_append]

/-- A digit is none of the bytes that mean something to a scanner. -/
theorem plain_of_isDigit (h : Lib.isDigit 16 c = true) : c ≠ 0x5c ∧ c ≠ 0x22 ∧ c ≠ 0x27 := by
  refine ⟨?_, ?_, ?_⟩
  · rintro rfl
    exact absurd h (by decide)
  · rintro rfl
    exact absurd h (by decide)
  rintro rfl
  exact absurd h (by decide)

theorem BasicChar.processEscapes_written (c : BasicChar) (text : Bytes) :
    processEscapes (c.written ++ text) = c.read ++ processEscapes text := by
  cases c with
  | literal byte hquote hbackslash => exact processEscapes_cons hbackslash text
  | escape e =>
    cases e with
    | backspace => exact congrArg (0x5c :: ·) (processEscapes_cons (by decide) text)
    | formFeed => exact congrArg (0x5c :: ·) (processEscapes_cons (by decide) text)
    | tab | newline | carriageReturn | quote | backslash => rfl
  | short point =>
    have hdigits := processEscapes_append
      (fun c hc => (plain_of_isDigit (point.isDigit c hc)).1) text
    have hletter := processEscapes_cons (c := 0x75) (by decide) (point.digits ++ text)
    rw [written, read, cons_append, cons_append, processEscapes, if_pos rfl]
    exact congrArg (0x5c :: ·) (hletter.trans (congrArg (0x75 :: ·) hdigits))
  | long point =>
  have hdigits := processEscapes_append
    (fun c hc => (plain_of_isDigit (point.isDigit c hc)).1) text
  have hletter := processEscapes_cons (c := 0x55) (by decide) (point.digits ++ text)
  rw [written, read, cons_append, cons_append, processEscapes, if_pos rfl]
  exact congrArg (0x5c :: ·) (hletter.trans (congrArg (0x55 :: ·) hdigits))

theorem processEscapes_written (chars : List BasicChar) :
    processEscapes (chars.flatMap BasicChar.written) = chars.flatMap BasicChar.read := by
  induction chars with
  | nil => rfl
  | cons c chars ih =>
  rw [flatMap_cons, flatMap_cons, c.processEscapes_written, ih]

theorem CodePoint.length_encoded_le {count : Nat} (point : CodePoint count) :
    point.encoded.length ≤ 4 := by
  rw [encoded, String.length_utf8EncodeChar]
  exact Char.utf8Size_le_four _

theorem BasicChar.read_cases (c : BasicChar) :
    (c.Decoded ∧ c.read = c.denoted) ∨ (¬ c.Decoded ∧ c.denoted.length < c.read.length) := by
  cases c with
  | literal byte _ _ => exact .inl ⟨trivial, rfl⟩
  | escape e =>
    cases e with
    | backspace => exact .inr ⟨fun h => h.1 rfl, by decide⟩
    | formFeed => exact .inr ⟨fun h => h.2 rfl, by decide⟩
    | tab => exact .inl ⟨⟨nofun, nofun⟩, rfl⟩
    | newline => exact .inl ⟨⟨nofun, nofun⟩, rfl⟩
    | carriageReturn => exact .inl ⟨⟨nofun, nofun⟩, rfl⟩
    | quote => exact .inl ⟨⟨nofun, nofun⟩, rfl⟩
    | backslash => exact .inl ⟨⟨nofun, nofun⟩, rfl⟩
  | short point =>
    have hle := point.length_encoded_le
    refine .inr ⟨id, ?_⟩
    rw [denoted, read, length_cons, length_cons, point.length_eq]
    omega
  | long point =>
  have hle := point.length_encoded_le
  refine .inr ⟨id, ?_⟩
  rw [denoted, read, length_cons, length_cons, point.length_eq]
  omega

theorem length_denoted_le (chars : List BasicChar) :
    (chars.flatMap BasicChar.denoted).length ≤ (chars.flatMap BasicChar.read).length := by
  induction chars with
  | nil => exact Nat.le_refl 0
  | cons c chars ih =>
  rw [flatMap_cons, flatMap_cons, length_append, length_append]
  refine Nat.add_le_add ?_ ih
  obtain ⟨_, heq⟩ | ⟨_, hlt⟩ := c.read_cases
  · rw [heq]
  exact Nat.le_of_lt hlt

theorem flatMap_read_eq_iff (chars : List BasicChar) :
    chars.flatMap BasicChar.read = chars.flatMap BasicChar.denoted ↔ ∀ c ∈ chars, c.Decoded := by
  induction chars with
  | nil => exact ⟨fun _ => nofun, fun _ => rfl⟩
  | cons c chars ih =>
  rw [flatMap_cons, flatMap_cons]
  obtain ⟨hdecoded, heq⟩ | ⟨hnot, hlt⟩ := c.read_cases
  · rw [heq, append_cancel_left_eq, ih, forall_mem_cons]
    exact ⟨fun h => ⟨hdecoded, h⟩, fun h => h.2⟩
  constructor
  · intro h
    have hlen := congrArg List.length h
    rw [length_append, length_append] at hlen
    have hle := length_denoted_le chars
    omega
  intro h
  exact absurd (h c mem_cons_self) hnot

theorem TomlString.read_eq_iff (s : TomlString) : s.read = s.denoted ↔ s.Decoded := by
  cases s with
  | basic chars => exact flatMap_read_eq_iff chars
  | literal bytes _ => exact ⟨fun _ => trivial, fun _ => rfl⟩

/-! ## Scanners pass over strings -/

/-- A scanner passes over the text: what it finds outside of quotes are plain bytes. -/
inductive Passes (plain : UInt8 → Prop) : Quotes → Bytes → Quotes → Prop
  | nil {quotes : Quotes} : Passes plain quotes [] quotes
  | tracked {quotes quotes' quotes'' : Quotes} {c : UInt8} {text : Bytes}
    (h : quotes.track c = some quotes') (hs : Passes plain quotes' text quotes'') :
    Passes plain quotes (c :: text) quotes''
  | inside {quotes quotes' : Quotes} {c : UInt8} {text : Bytes} (h : quotes.track c = none)
    (hin : quotes.inside = true) (hs : Passes plain quotes text quotes') :
    Passes plain quotes (c :: text) quotes'
  | outside {quotes quotes' : Quotes} {c : UInt8} {text : Bytes} (h : quotes.track c = none)
    (hout : quotes.inside = false) (hplain : plain c) (hs : Passes plain quotes text quotes') :
    Passes plain quotes (c :: text) quotes'

section

variable {plain plain' : UInt8 → Prop} {quotes quotes' quotes'' : Quotes} {text text' : Bytes}

theorem Passes.append (h : Passes plain quotes text quotes')
    (h' : Passes plain quotes' text' quotes'') : Passes plain quotes (text ++ text') quotes'' := by
  induction h with
  | nil => exact h'
  | tracked h _ ih => exact .tracked h (ih h')
  | inside h hin _ ih => exact .inside h hin (ih h')
  | outside h hout hplain _ ih => exact .outside h hout hplain (ih h')

theorem Passes.uncommented (hplain : ∀ c, plain c → c ≠ 0x23)
    (h : Passes plain quotes text quotes') (text' : Bytes) :
    uncommented quotes (text ++ text') = text ++ uncommented quotes' text' := by
  induction h with
  | nil => rfl
  | tracked h _ ih => rw [cons_append, TomlParser.uncommented, h, cons_append, ← ih]
  | inside h hin _ ih =>
    rw [cons_append, TomlParser.uncommented, h, cons_append, ← ih, hin]
    exact if_neg fun hboth => absurd hboth.2 (by decide)
  | outside h _ hc _ ih =>
  rw [cons_append, TomlParser.uncommented, h, cons_append, ← ih]
  exact if_neg fun hboth => hplain _ hc hboth.1

theorem Passes.closes (hplain : ∀ c, plain c → c ≠ 0x5b ∧ c ≠ 0x5d)
    (h : Passes plain quotes text quotes') (depth : Int) (text' : Bytes) :
    closes quotes depth (text ++ text') = closes quotes' depth text' := by
  induction h with
  | nil => rfl
  | tracked h _ ih => rw [cons_append, TomlParser.closes, h, ← ih]
  | inside h hin _ ih =>
    rw [cons_append, TomlParser.closes, h, ← ih]
    exact if_pos hin
  | outside h hout hc _ ih =>
  obtain ⟨hopen, hclose⟩ := hplain _ hc
  rw [cons_append, TomlParser.closes, h, ← ih, hout]
  dsimp only
  rw [if_neg Bool.false_ne_true, if_neg hopen, if_neg hclose]

theorem Passes.nests (hplain : ∀ c, plain c → c ≠ 0x5b ∧ c ≠ 0x5d)
    (h : Passes plain quotes text quotes') : nests quotes text = quotes'.inside := by
  induction h with
  | nil => rfl
  | tracked h _ ih => rw [TomlParser.nests, h, ← ih]
  | inside h hin _ ih =>
    rw [TomlParser.nests, h, ← ih, hin]
    exact if_neg fun hboth => absurd hboth.2 (by decide)
  | outside h _ hc _ ih =>
  obtain ⟨hopen, hclose⟩ := hplain _ hc
  rw [TomlParser.nests, h, ← ih]
  exact if_neg fun hboth => hboth.1.elim hopen hclose

theorem Passes.splitItems (hplain : ∀ c, plain c → c ≠ 0x2c)
    (h : Passes plain quotes text quotes') (item text' : Bytes) :
    splitItems Quotes.track quotes item (text ++ text') =
      splitItems Quotes.track quotes' (item ++ text) text' := by
  induction h generalizing item with
  | nil => rw [nil_append, append_nil]
  | tracked h _ ih =>
    rw [cons_append, TomlParser.splitItems, h]
    dsimp only
    rw [ih, append_assoc, singleton_append]
  | inside h hin _ ih =>
    rw [cons_append, TomlParser.splitItems, h, hin]
    dsimp only
    rw [if_neg fun hboth => absurd hboth.2 (by decide), ih, append_assoc,
      singleton_append]
  | outside h _ hc _ ih =>
  rw [cons_append, TomlParser.splitItems, h]
  dsimp only
  rw [if_neg fun hboth => hplain _ hc hboth.1, ih, append_assoc, singleton_append]

end

theorem track_outside (hdouble : c ≠ 0x22) (hsingle : c ≠ 0x27) : ({} : Quotes).track c = none := by
  simp [Quotes.track, hdouble, hsingle]

theorem track_double (hquote : c ≠ 0x22) (hbackslash : c ≠ 0x5c) :
    ({ inDoubleQuote := true } : Quotes).track c = none := by
  simp [Quotes.track, hquote, hbackslash]

theorem track_single (hquote : c ≠ 0x27) : ({ inSingleQuote := true } : Quotes).track c = none := by
  simp [Quotes.track, hquote]

section

variable {plain : UInt8 → Prop}

theorem passes_digits (h : ∀ c ∈ digits, Lib.isDigit 16 c = true) :
    Passes plain { inDoubleQuote := true } digits { inDoubleQuote := true } := by
  induction digits with
  | nil => exact .nil
  | cons c digits ih =>
  obtain ⟨hbackslash, hquote, _⟩ := plain_of_isDigit (h c mem_cons_self)
  exact .inside (track_double hquote hbackslash) rfl
    (ih fun c' hc' => h c' (mem_cons_of_mem c hc'))

/-- A backslash and the byte behind it. -/
theorem passes_escape (letter : UInt8) (h : Passes plain { inDoubleQuote := true } text quotes) :
    Passes plain { inDoubleQuote := true } (0x5c :: letter :: text) quotes :=
  .tracked (show _ = some ({ inDoubleQuote := true, escaped := true } : Quotes) from rfl)
    (.tracked (show _ = some ({ inDoubleQuote := true } : Quotes) from rfl) h)

theorem BasicChar.passes (c : BasicChar) :
    Passes plain { inDoubleQuote := true } c.written { inDoubleQuote := true } := by
  cases c with
  | literal byte hquote hbackslash => exact .inside (track_double hquote hbackslash) rfl .nil
  | escape e => exact passes_escape e.letter .nil
  | short point => exact passes_escape 0x75 (passes_digits point.isDigit)
  | long point => exact passes_escape 0x55 (passes_digits point.isDigit)

theorem passes_single (h : 0x27 ∉ bytes) :
    Passes plain { inSingleQuote := true } bytes { inSingleQuote := true } := by
  induction bytes with
  | nil => exact .nil
  | cons c bytes ih =>
  have hne : c ≠ 0x27 := fun heq => h (List.mem_cons.2 (.inl heq.symm))
  exact .inside (track_single hne) rfl (ih fun hbyte => h (mem_cons_of_mem c hbyte))

theorem TomlString.passes (s : TomlString) : Passes plain {} s.written {} := by
  cases s with
  | basic chars =>
    have hchars : Passes plain { inDoubleQuote := true } (chars.flatMap BasicChar.written)
        { inDoubleQuote := true } := by
      induction chars with
      | nil => exact .nil
      | cons c chars ih => exact c.passes.append ih
    exact .tracked (show _ = some ({ inDoubleQuote := true } : Quotes) from rfl)
      (hchars.append (.tracked (show _ = some ({} : Quotes) from rfl) .nil))
  | literal bytes hquote =>
  exact .tracked (show _ = some ({ inSingleQuote := true } : Quotes) from rfl)
    ((passes_single hquote).append (.tracked (show _ = some ({} : Quotes) from rfl) .nil))

end

/-! ## The checks of a string -/

theorem body_quoted (quote : UInt8) (text : Bytes) : body (quote :: (text ++ [quote])) = text := by
  rw [body, drop_one, tail_cons, dropLast_concat]

theorem getLast?_quoted (quote : UInt8) (text : Bytes) :
    (quote :: (text ++ [quote])).getLast? = some quote := by
  rw [← cons_append, getLast?_concat]

/-- The backslashes at the end of what is between double quotes are escaped ones, in pairs. -/
theorem even_backslashes (chars : List BasicChar) :
    ((chars.flatMap BasicChar.written).reverse.takeWhile (· = 0x5c)).length % 2 = 0 := by
  have hstop : ∀ {c : UInt8} {text : Bytes}, c ≠ 0x5c →
      ((text ++ [c]).reverse.takeWhile (· = 0x5c)).length % 2 = 0 := by
    intro c text hne
    rw [reverse_append, reverse_singleton, singleton_append,
      takeWhile_cons_of_neg (by simpa using hne)]
    rfl
  have hdigits : ∀ {count : Nat} (point : CodePoint (count + 1)) (text : Bytes),
      ((text ++ point.digits).reverse.takeWhile (· = 0x5c)).length % 2 = 0 := by
    intro count point text
    rcases point.digits.eq_nil_or_concat with hnil | ⟨digits, c, hconcat⟩
    · have hlen := point.length_eq
      rw [hnil] at hlen
      cases hlen
    have hc := point.isDigit c (by rw [hconcat, concat_eq_append]; simp)
    rw [hconcat, concat_eq_append, ← append_assoc]
    exact hstop (plain_of_isDigit hc).1
  induction chars using List.reverseRecOn with
  | nil => rfl
  | append_singleton chars c ih =>
  rw [flatMap_append, flatMap_singleton]
  cases c with
  | literal byte _ hbackslash => exact hstop hbackslash
  | escape e =>
    cases e with
    | backslash =>
      rw [BasicChar.written, reverse_append]
      change (List.takeWhile (· = 0x5c)
        (0x5c :: 0x5c :: (chars.flatMap BasicChar.written).reverse)).length % 2 = 0
      rw [takeWhile_cons_of_pos rfl, takeWhile_cons_of_pos rfl, length_cons, length_cons]
      omega
    | backspace | tab | newline | formFeed | carriageReturn | quote =>
    rw [BasicChar.written, ← singleton_append, ← append_assoc]
    exact hstop (by decide)
  | short point =>
    have hparts : chars.flatMap BasicChar.written ++ (BasicChar.short point).written =
        chars.flatMap BasicChar.written ++ [0x5c, 0x75] ++ point.digits := by
      rw [append_assoc]
      rfl
    rw [hparts]
    exact hdigits point _
  | long point =>
  have hparts : chars.flatMap BasicChar.written ++ (BasicChar.long point).written =
      chars.flatMap BasicChar.written ++ [0x5c, 0x55] ++ point.digits := by
    rw [append_assoc]
    rfl
  rw [hparts]
  exact hdigits point _

theorem TomlString.isTerminal (s : TomlString) : isTerminalQuotedTomlString s.written = true := by
  cases s with
  | basic chars =>
    have hlen : ¬ (written (.basic chars)).length < 2 := by
      rw [written, length_cons, length_append, length_singleton]
      omega
    rw [isTerminalQuotedTomlString, if_neg, if_neg]
    · rw [written, body_quoted]
      exact decide_eq_true (even_backslashes chars)
    · exact nofun
    rintro (hlt | ⟨hquote, _⟩ | hlast)
    · exact hlen hlt
    · exact hquote rfl
    exact hlast (getLast?_quoted 0x22 _)
  | literal bytes hnot =>
  have hlen : ¬ (written (.literal bytes hnot)).length < 2 := by
    rw [written, length_cons, length_append, length_singleton]
    omega
  have hhead : (written (.literal bytes hnot)).head? = some 0x27 := rfl
  rw [isTerminalQuotedTomlString, if_neg, if_pos hhead]
  rintro (hlt | ⟨_, hquote⟩ | hlast)
  · exact hlen hlt
  · exact hquote rfl
  exact hlast (getLast?_quoted 0x27 _)

theorem validEscapes_skip (skipped text : Bytes) :
    validEscapes skipped.length (skipped ++ text) = validEscapes 0 text := by
  induction skipped with
  | nil => rfl
  | cons c skipped ih => exact ih

theorem hasHexDigits_append {count : Nat} (point : CodePoint count) {text : Bytes}
    (htext : text ≠ []) : hasHexDigits (point.digits ++ text) count = true := by
  have hpos := List.length_pos_iff.2 htext
  have htake : (point.digits ++ text).take count = point.digits := take_left' point.length_eq
  rw [hasHexDigits, htake, length_append, point.length_eq, Bool.and_eq_true]
  exact ⟨decide_eq_true (by omega), List.all_eq_true.2 point.isDigit⟩

theorem BasicChar.validEscapes_written (c : BasicChar) {text : Bytes} (htext : text ≠ []) :
    validEscapes 0 (c.written ++ text) = validEscapes 0 text := by
  cases c with
  | literal byte _ hbackslash =>
    show validEscapes 0 (byte :: text) = _
    rw [validEscapes.eq_def]
    exact if_neg hbackslash
  | escape e => cases e <;> rfl
  | short point =>
    have hskip := validEscapes_skip (0x75 :: point.digits) text
    rw [length_cons, point.length_eq] at hskip
    show (hasHexDigits (point.digits ++ text) 4 && validEscapes 5 (0x75 :: point.digits ++ text)) = _
    rw [hasHexDigits_append point htext, Bool.true_and, hskip]
  | long point =>
  have hskip := validEscapes_skip (0x55 :: point.digits) text
  rw [length_cons, point.length_eq] at hskip
  show (hasHexDigits (point.digits ++ text) 8 && validEscapes 9 (0x55 :: point.digits ++ text)) = _
  rw [hasHexDigits_append point htext, Bool.true_and, hskip]

theorem hasValidEscapes_basic (chars : List BasicChar) :
    hasValidEscapes (TomlString.basic chars).written = true := by
  rw [hasValidEscapes, TomlString.written, drop_one, tail_cons]
  induction chars with
  | nil => rfl
  | cons c chars ih =>
  rw [flatMap_cons, append_assoc,
    c.validEscapes_written (append_ne_nil_of_right_ne_nil _ (cons_ne_nil _ _)), ih]

theorem validQuotes_digits (h : ∀ c ∈ digits, Lib.isDigit 16 c = true)
    (text : Bytes) : validQuotes false (digits ++ text) = validQuotes false text := by
  induction digits with
  | nil => rfl
  | cons c digits ih =>
  obtain ⟨hbackslash, hquote, _⟩ := plain_of_isDigit (h c mem_cons_self)
  rw [cons_append, validQuotes, if_neg hbackslash, if_neg hquote]
  exact ih fun c' hc' => h c' (mem_cons_of_mem c hc')

theorem BasicChar.validQuotes_written (c : BasicChar) (text : Bytes) :
    validQuotes false (c.written ++ text) = validQuotes false text := by
  cases c with
  | literal byte hquote hbackslash =>
    show validQuotes false (byte :: text) = _
    rw [validQuotes, if_neg hbackslash, if_neg hquote]
  | escape e => rfl
  | short point => exact validQuotes_digits point.isDigit text
  | long point => exact validQuotes_digits point.isDigit text

theorem TomlString.hasValidQuotes (s : TomlString) :
    hasValidTomlStringQuotes s.written = true := by
  cases s with
  | basic chars =>
    rw [hasValidTomlStringQuotes, if_neg nofun, written, body_quoted]
    induction chars with
    | nil => rfl
    | cons c chars ih => rw [flatMap_cons, c.validQuotes_written, ih]
  | literal bytes hquote =>
  have hhead : (written (.literal bytes hquote)).head? = some 0x27 := rfl
  rw [hasValidTomlStringQuotes, if_pos hhead, written, body_quoted, Bool.not_eq_true',
    ← Bool.not_eq_true, contains_iff_mem]
  exact hquote

theorem TomlString.unquote (s : TomlString) : unquoteTomlString s.written = s.read := by
  cases s with
  | basic chars =>
    rw [unquoteTomlString, if_neg nofun, written, body_quoted, processEscapes_written]
    rfl
  | literal bytes hquote =>
  have hhead : (written (.literal bytes hquote)).head? = some 0x27 := rfl
  rw [unquoteTomlString, if_pos hhead, written, body_quoted]
  rfl

/-! ## A string as a scalar -/

theorem TomlString.solid (s : TomlString) : Solid isSpace s.written := by
  cases s with
  | basic chars =>
    exact (solid_singleton (c := 0x22) rfl).append (solid_singleton (c := 0x22) rfl) _
  | literal bytes _ =>
  exact (solid_singleton (c := 0x27) rfl).append (solid_singleton (c := 0x27) rfl) bytes

theorem TomlString.ends (s : TomlString) :
    (s.written.head? = some 0x22 ∧ s.written.getLast? = some 0x22 ∧
      hasValidEscapes s.written = true) ∨
    (s.written.head? = some 0x27 ∧ s.written.getLast? = some 0x27) := by
  cases s with
  | basic chars => exact .inl ⟨rfl, getLast?_quoted 0x22 _, hasValidEscapes_basic chars⟩
  | literal bytes _ => exact .inr ⟨rfl, getLast?_quoted 0x27 bytes⟩

theorem TomlString.quoted (s : TomlString) :
    s.written.head? = some 0x22 ∨ s.written.head? = some 0x27 :=
  s.ends.imp And.left And.left

theorem TomlString.escapes (s : TomlString) :
    ¬ (s.written.head? = some 0x22 ∧ (!hasValidEscapes s.written) = true) := by
  rintro ⟨hhead, hinv⟩
  obtain ⟨_, _, hvalid⟩ | ⟨hsingle, _⟩ := s.ends
  · rw [hvalid] at hinv
    cases hinv
  cases hhead.symm.trans hsingle

theorem TomlString.normalizeScalar (s : TomlString) (lineNum : Nat) :
    normalizeScalar s.written lineNum = .ok s.read := by
  have htrim : ParserDetail.trim s.written = s.written := trim_of_solid s.solid
  rw [TomlParser.normalizeScalar, htrim, if_neg s.solid.ne_nil, if_pos s.quoted,
    s.isTerminal, if_neg s.escapes, s.hasValidQuotes, s.unquote]
  rfl

theorem TomlString.scalarKind (s : TomlString) : scalarKind s.written = .string := by
  have htrim : ParserDetail.trim s.written = s.written := trim_of_solid s.solid
  rw [TomlParser.scalarKind, htrim, if_neg, if_pos s.quoted, s.isTerminal, if_neg s.escapes,
    s.hasValidQuotes]
  · rfl
  rintro (hnil | hopen | hbrace | hclose)
  · exact s.solid.ne_nil hnil
  · rcases s.quoted with hhead | hhead
    · cases hopen.symm.trans hhead
    cases hopen.symm.trans hhead
  · rcases s.quoted with hhead | hhead
    · cases hbrace.symm.trans hhead
    cases hbrace.symm.trans hhead
  obtain ⟨_, hlast, _⟩ | ⟨_, hlast⟩ := s.ends
  · cases hclose.symm.trans hlast
  cases hclose.symm.trans hlast

end Galay.Utils
