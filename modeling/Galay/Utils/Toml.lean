import Galay.Lib.Spaced
import Galay.Lib.ToChars

/-!
# The TOML parser (`galay-utils/config/toml.hpp`, `detail.hpp`)

Texts are byte strings. The scanners of the source follow the same quotes and escapes; what they do
with a byte beyond that differs.
-/

namespace Galay.Utils

open Lib

/-- `std::isspace` in the C locale. -/
def isSpace (c : UInt8) : Bool := c == 0x20 || (0x09 ≤ c && c ≤ 0x0d)

/-- `std::isalnum` in the C locale. -/
def isAlnum (c : UInt8) : Bool := isDigit 36 c

namespace ParserDetail

def trim (text : Bytes) : Bytes := Lib.trim isSpace text

/-- The byte that an escape of one letter stands for. -/
def unescaped (letter : UInt8) : Option UInt8 :=
  match letter with
  | 0x6e => some 0x0a
  | 0x74 => some 0x09
  | 0x72 => some 0x0d
  | 0x5c => some 0x5c
  | 0x22 => some 0x22
  | 0x27 => some 0x27
  | _ => none

def processEscapes : Bytes → Bytes
  | [] => []
  | [c] => [c]
  | c :: letter :: text =>
    if c = 0x5c then
      match unescaped letter with
      | some byte => byte :: processEscapes text
      | none => c :: processEscapes (letter :: text)
    else c :: processEscapes (letter :: text)

end ParserDetail

open ParserDetail

namespace TomlParser

/-! ## Quotes -/

/-- Where a scanner stands. -/
structure Quotes where
  inSingleQuote : Bool := false
  inDoubleQuote : Bool := false
  escaped : Bool := false
  deriving DecidableEq, Repr

namespace Quotes

variable (quotes : Quotes)

def inside : Bool := quotes.inSingleQuote || quotes.inDoubleQuote

/-- The first branches of every scanner; `none` if none of them takes the byte. -/
def track (character : UInt8) : Option Quotes :=
  if quotes.inDoubleQuote && quotes.escaped then some { quotes with escaped := false }
  else if quotes.inDoubleQuote && character == 0x5c then some { quotes with escaped := true }
  else if character == 0x27 && !quotes.inDoubleQuote then
    some { quotes with inSingleQuote := !quotes.inSingleQuote }
  else if character == 0x22 && !quotes.inSingleQuote then
    some { quotes with inDoubleQuote := !quotes.inDoubleQuote }
  else none

/-- The same where a backslash escapes the next byte anywhere. -/
def trackEscapes (character : UInt8) : Option Quotes :=
  if quotes.escaped then some { quotes with escaped := false }
  else if character == 0x5c then some { quotes with escaped := true }
  else if character == 0x27 && !quotes.inDoubleQuote then
    some { quotes with inSingleQuote := !quotes.inSingleQuote }
  else if character == 0x22 && !quotes.inSingleQuote then
    some { quotes with inDoubleQuote := !quotes.inDoubleQuote }
  else none

end Quotes

/-- The text before the comment. -/
def uncommented : Quotes → Bytes → Bytes
  | _, [] => []
  | quotes, c :: text =>
    match quotes.track c with
    | some quotes => c :: uncommented quotes text
    | none => if c = 0x23 ∧ !quotes.inside then [] else c :: uncommented quotes text

def stripTomlInlineComment (text : Bytes) : Bytes := trim (uncommented {} text)

/-- The loop of the two functions that split at commas, with the bytes of the item so far. -/
def splitItems (track : Quotes → UInt8 → Option Quotes) : Quotes → (item : Bytes) → Bytes → List Bytes
  | _, item, [] => [trim item]
  | quotes, item, c :: text =>
    match track quotes c with
    | some quotes => splitItems track quotes (item ++ [c]) text
    | none =>
      if c = 0x2c ∧ !quotes.inside then trim item :: splitItems track quotes [] text
      else splitItems track quotes (item ++ [c]) text

def splitTomlArrayItems (text : Bytes) : List Bytes :=
  if trim text = [] then [] else splitItems Quotes.track {} [] text

/-- Escapes count outside double quotes, too. -/
def splitCommaSeparated (text : Bytes) : List Bytes :=
  if trim text = [] then [] else splitItems Quotes.trackEscapes {} [] text

/-- The loop of `hasClosedArrayValue`. -/
def closes : Quotes → (depth : Int) → Bytes → Bool
  | _, _, [] => false
  | quotes, depth, c :: text =>
    match quotes.track c with
    | some quotes => closes quotes depth text
    | none =>
      if quotes.inside then closes quotes depth text
      else if c = 0x5b then closes quotes (depth + 1) text
      else if c = 0x5d then if depth - 1 ≤ 0 then true else closes quotes (depth - 1) text
      else closes quotes depth text

def hasClosedArrayValue (rawValue : Bytes) : Bool :=
  match trim rawValue with
  | 0x5b :: text => closes {} 0 (0x5b :: text)
  | _ => true

/-- The loop of `hasNestedArray`. -/
def nests : Quotes → Bytes → Bool
  | quotes, [] => quotes.inside
  | quotes, c :: text =>
    match quotes.track c with
    | some quotes => nests quotes text
    | none => if (c = 0x5b ∨ c = 0x5d) ∧ !quotes.inside then true else nests quotes text

def hasNestedArray (value : Bytes) : Bool := nests {} value

/-! ## Strings -/

variable (value : Bytes)

/-- The bytes between the first and the last. -/
def body : Bytes := (value.drop 1).dropLast

def isTerminalQuotedTomlString : Bool :=
  if value.length < 2 ∨ (value.head? ≠ some 0x22 ∧ value.head? ≠ some 0x27) ∨
      value.getLast? ≠ value.head? then false
  else if value.head? = some 0x27 then true
  else ((body value).reverse.takeWhile (· = 0x5c)).length % 2 = 0

/-- The loop of `hasValidTomlStringQuotes` over a string in double quotes. -/
def validQuotes : (escaped : Bool) → Bytes → Bool
  | escaped, [] => !escaped
  | true, _ :: text => validQuotes false text
  | false, c :: text =>
    if c = 0x5c then validQuotes true text else if c = 0x22 then false else validQuotes false text

def hasValidTomlStringQuotes : Bool :=
  if value.head? = some 0x27 then !(body value).contains 0x27 else validQuotes false (body value)

/-- The digits are there and a byte is behind them. -/
def hasHexDigits (text : Bytes) (count : Nat) : Bool :=
  count + 1 ≤ text.length && (text.take count).all (isDigit 16)

/-- The loop of `hasValidEscapes`, with the number of bytes that it still skips. -/
def validEscapes : (skip : Nat) → Bytes → Bool
  | _, [] => true
  | skip + 1, _ :: text => validEscapes skip text
  | 0, c :: text =>
    if c = 0x5c then
      match text with
      | [] => true
      | letter :: digits =>
        if letter = 0x62 ∨ letter = 0x74 ∨ letter = 0x6e ∨ letter = 0x66 ∨ letter = 0x72 ∨
            letter = 0x22 ∨ letter = 0x5c then validEscapes 1 text
        else if letter = 0x75 then hasHexDigits digits 4 && validEscapes 5 text
        else if letter = 0x55 then hasHexDigits digits 8 && validEscapes 9 text
        else false
    else validEscapes 0 text

def hasValidEscapes : Bool := validEscapes 0 (value.drop 1)

def unquoteTomlString : Bytes :=
  if value.head? = some 0x27 then body value else processEscapes (body value)

variable {value}

/-! ## Scalars -/

inductive ScalarKind
  | unknown | string | bool | number | invalid
  deriving DecidableEq, Repr

def isNumber (value : Bytes) : Bool :=
  let text := if value.head? = some 0x2b ∨ value.head? = some 0x2d then value.drop 1 else value
  if text = [] then false
  else if text.head? = some 0x30 ∧ (text.drop 1).head?.any (isDigit 10) then false
  else
    let hasDigit := text.head?.any (isDigit 10)
    match text.dropWhile (isDigit 10) with
    | [] => hasDigit
    | c :: fraction =>
      c = 0x2e && fraction.head?.any (isDigit 10) && hasDigit &&
        fraction.dropWhile (isDigit 10) = []

def scalarKind (rawValue : Bytes) : ScalarKind :=
  let value := trim rawValue
  if value = [] ∨ value.head? = some 0x5b ∨ value.head? = some 0x7b ∨ value.getLast? = some 0x7d then
    .invalid
  else if value.head? = some 0x22 ∨ value.head? = some 0x27 then
    if !isTerminalQuotedTomlString value then .invalid
    else if value.head? = some 0x22 ∧ !hasValidEscapes value then .invalid
    else if !hasValidTomlStringQuotes value then .invalid
    else .string
  else if value.contains 0x22 ∨ value.contains 0x27 then .invalid
  else if value = ascii "true" ∨ value = ascii "false" then .bool
  else if isNumber value then .number
  else .invalid

/-- A message and the number of the line. -/
def atLine (message : String) (lineNum : Nat) : Bytes :=
  ascii message ++ ascii " at line " ++ numeral 10 lineNum

def normalizeScalar (rawValue : Bytes) (lineNum : Nat) : Except Bytes Bytes :=
  let value := trim rawValue
  if value = [] then .error (atLine "Empty TOML scalar" lineNum)
  else if value.head? = some 0x22 ∨ value.head? = some 0x27 then
    if !isTerminalQuotedTomlString value then .error (atLine "Unterminated TOML string" lineNum)
    else if value.head? = some 0x22 ∧ !hasValidEscapes value then
      .error (atLine "Invalid TOML escape" lineNum)
    else if !hasValidTomlStringQuotes value then .error (atLine "Invalid TOML string" lineNum)
    else .ok (unquoteTomlString value)
  else if value.head? = some 0x7b ∨ value.getLast? = some 0x7d then
    .error (atLine "Unsupported TOML inline table" lineNum)
  else if value.contains 0x22 ∨ value.contains 0x27 then
    .error (atLine "Invalid TOML string" lineNum)
  else if value = ascii "true" ∨ value = ascii "false" ∨ isNumber value then .ok value
  else .error (atLine "Unsupported TOML scalar" lineNum ++ ascii ": " ++ value)

/-! ## Values -/

/-- The loop over the items of an array. -/
def normalizeItems (lineNum : Nat) : (arrayKind : ScalarKind) → List Bytes →
    Except Bytes (List Bytes)
  | _, [] => .ok []
  | arrayKind, item :: items =>
    let itemKind := scalarKind item
    if itemKind = .invalid then .error (atLine "Invalid TOML array item" lineNum)
    else if arrayKind ≠ .unknown ∧ arrayKind ≠ itemKind then
      .error (atLine "Mixed TOML array item types" lineNum)
    else do
      let normalized ← normalizeScalar item lineNum
      let rest ← normalizeItems lineNum itemKind items
      return normalized :: rest

/-- The value and, of an array, the items. -/
def normalizeValue (rawValue : Bytes) (lineNum : Nat) : Except Bytes (Bytes × List Bytes) :=
  if rawValue = [] then .error (atLine "Empty TOML value" lineNum)
  else if rawValue.head? = some 0x5b then
    if rawValue.getLast? ≠ some 0x5d then .error (atLine "Invalid TOML array" lineNum)
    else if trim (body rawValue) = [] then .ok ([], [])
    else if hasNestedArray (body rawValue) then
      .error (atLine "Unsupported nested TOML array" lineNum)
    else
      let items := splitTomlArrayItems (body rawValue)
      let items :=
        if items.getLast? = some [] ∧ (trim (body rawValue)).getLast? = some 0x2c then items.dropLast
        else items
      do
        let normalized ← normalizeItems lineNum .unknown items
        return ([0x2c].intercalate normalized, normalized)
  else do
    let value ← normalizeScalar rawValue lineNum
    return (value, [])

def isValidKeyFrom : (previousDot : Bool) → Bytes → Bool
  | _, [] => true
  | previousDot, c :: key =>
    if c = 0x2e then !previousDot && isValidKeyFrom true key
    else (isAlnum c || c == 0x5f || c == 0x2d) && isValidKeyFrom false key

def isValidKey (key : Bytes) : Bool :=
  key ≠ [] && key.head? ≠ some 0x2e && key.getLast? ≠ some 0x2e && isValidKeyFrom false key

end TomlParser

structure TomlParser where
  values : List (Bytes × Bytes) := []
  arrays : List (Bytes × List Bytes) := []
  sections : List Bytes := []
  lastError : Bytes := []

namespace TomlParser

variable (parser : TomlParser)

def getValue (key : Bytes) : Option Bytes := parser.values.lookup key

/-- One of the keys is the other one or begins with it and a dot. -/
def conflicts (existingKey key : Bytes) : Bool :=
  existingKey == key || (key ++ [0x2e]).isPrefixOf existingKey ||
    (existingKey ++ [0x2e]).isPrefixOf key

def hasKeyConflict (key : Bytes) : Bool := parser.values.any fun entry => conflicts entry.1 key

def storeValue (currentSection key rawValue : Bytes) (lineNum : Nat) : Except Bytes TomlParser := do
  let (value, items) ← normalizeValue rawValue lineNum
  let fullKey := if currentSection = [] then key else currentSection ++ [0x2e] ++ key
  if (parser.getValue fullKey).isSome then
    throw (atLine "Duplicate TOML key" lineNum ++ ascii ": " ++ fullKey)
  if parser.hasKeyConflict fullKey then
    throw (atLine "TOML key conflicts with existing key" lineNum ++ ascii ": " ++ fullKey)
  return { parser with
    values := parser.values ++ [(fullKey, value)]
    arrays :=
      if rawValue.head? = some 0x5b then parser.arrays ++ [(fullKey, items)] else parser.arrays }

/-! ## Lines -/

structure PendingArray where
  key : Bytes
  currentSection : Bytes
  value : Bytes
  lineNum : Nat

/-- The parser with the local variables of `parseString`. -/
structure Parse where
  parser : TomlParser := {}
  currentSection : Bytes := []
  pendingArray : Option PendingArray := none

namespace Parse

variable (state : Parse)

/-- A line of an array that is not closed yet. -/
def pendingLine (pending : PendingArray) (line : Bytes) : Except Bytes Parse :=
  if line = [] then .ok state
  else
    let value := pending.value ++ [0x20] ++ line
    if hasClosedArrayValue value then do
      let parser ← state.parser.storeValue pending.currentSection pending.key value pending.lineNum
      return { state with parser, pendingArray := none }
    else .ok { state with pendingArray := some { pending with value } }

def sectionLine (lineNum : Nat) (line : Bytes) : Except Bytes Parse :=
  if line.length < 3 ∨ (line)[1]? = some 0x5b ∨ line.dropLast.getLast? = some 0x5d then
    .error (ascii "Unsupported TOML table line " ++ numeral 10 lineNum ++ ascii ": " ++ line)
  else
    let currentSection := trim (body line)
    if !isValidKey currentSection then .error (atLine "Invalid TOML section" lineNum)
    else if currentSection ∈ state.parser.sections then
      .error (atLine "Duplicate TOML section" lineNum ++ ascii ": " ++ currentSection)
    else if state.parser.hasKeyConflict currentSection then
      .error (atLine "TOML section conflicts with key" lineNum ++ ascii ": " ++ currentSection)
    else .ok { state with
      parser := { state.parser with sections := currentSection :: state.parser.sections }
      currentSection }

def valueLine (lineNum : Nat) (line : Bytes) : Except Bytes Parse :=
  if !line.contains 0x3d then
    .error (ascii "Invalid TOML line " ++ numeral 10 lineNum ++ ascii ": " ++ line)
  else
    let key := trim (line.takeWhile (· ≠ 0x3d))
    let rawValue := trim ((line.dropWhile (· ≠ 0x3d)).drop 1)
    if key = [] then .error (atLine "Empty TOML key" lineNum)
    else if !isValidKey key then .error (atLine "Invalid TOML key" lineNum ++ ascii ": " ++ key)
    else if rawValue.head? = some 0x5b ∧ !hasClosedArrayValue rawValue then
      .ok { state with
        pendingArray :=
          some { key, currentSection := state.currentSection, value := rawValue, lineNum } }
    else do
      let parser ← state.parser.storeValue state.currentSection key rawValue lineNum
      return { state with parser }

/-- The body of the loop over the lines. -/
def line (lineNum : Nat) (text : Bytes) : Except Bytes Parse :=
  let line := stripTomlInlineComment text
  match state.pendingArray with
  | some pending => state.pendingLine pending line
  | none =>
    if line = [] then .ok state
    else if line.head? = some 0x5b ∧ line.getLast? = some 0x5d then state.sectionLine lineNum line
    else state.valueLine lineNum line

/-- The loop over the lines from a line on. -/
def lines (state : Parse) (lineNum : Nat) : List Bytes → Bool × TomlParser
  | [] =>
    match state.pendingArray with
    | some pending =>
      (false, { state.parser with lastError := atLine "Invalid TOML array" pending.lineNum })
    | none => (true, state.parser)
  | text :: texts =>
    match state.line lineNum text with
    | .ok state => state.lines (lineNum + 1) texts
    | .error lastError => (false, { state.parser with lastError })

end Parse

/-- The lines that `std::getline` gives. -/
def getlines (content : Bytes) : List Bytes :=
  let lines := content.splitOn 0x0a
  if lines.getLast? = some [] then lines.dropLast else lines

def parseString (content : Bytes) : Bool × TomlParser :=
  ({} : Parse).lines 1 (getlines content)

def getArray (key : Bytes) : List Bytes :=
  match parser.arrays.lookup key with
  | some items => items
  | none =>
    match parser.getValue key with
    | some value => splitCommaSeparated value
    | none => []

end TomlParser

end Galay.Utils
