import Galay.Http2.Hpack.Huffman
import Galay.Lib.PrefixCode

/-!
# The tables of the Huffman code

The table of the decoder is the automaton of the prefix code over half bytes: each state stands
for the bits that have been read of the next symbol (`huffmanPaths`). The tables are checked
against these bits here, once, and nothing after this module evaluates them.
-/

namespace Galay.Http2.HpackHuffman

open Galay.Lib

/-- Successive codes of the same length. -/
private def run (code bits count : Nat) : List HuffmanCode :=
  (List.range' code count).map fun code => ⟨code, bits⟩

/-- The bits that lead to each state, sixteen states a row. -/
def huffmanPaths : List (List HuffmanCode) := [run 0x0 0 1 ++ run 0x0 4 15,
  run 0xf 4 1 ++ run 0x0 3 8 ++ run 0x0 2 4 ++ run 0x0 1 2 ++ run 0xfe 8 1,
  run 0xff 8 1 ++ run 0x7c 7 4 ++ run 0x2e 6 11, run 0x39 6 7 ++ run 0xa 5 9,
  run 0x13 5 13 ++ run 0xffc 12 3,
  run 0xfff 12 1 ++ run 0x7fd 11 3 ++ run 0x3fd 10 3 ++ run 0x1fc 9 4 ++ run 0xfffe 16 2 ++
    run 0x7fff 15 1 ++ run 0x3ffe 14 2, run 0x1ffe 13 2 ++ run 0xfffee 20 14,
  run 0xffffc 20 4 ++ run 0x7fff3 19 12,
  run 0x7ffff 19 1 ++ run 0x3fff8 18 8 ++ run 0x1fffc 17 4 ++ run 0xfffff6 24 3,
  run 0xfffff9 24 7 ++ run 0x7ffff5 23 9, run 0x7ffffe 23 2 ++ run 0x3fffec 22 14,
  run 0x3ffffa 22 6 ++ run 0x1fffe9 21 10,
  run 0x1ffff3 21 13 ++ run 0xfffffff 28 1 ++ run 0x7fffff1 27 2,
  run 0x7fffff3 27 13 ++ run 0x3ffffef 26 3, run 0x3fffff2 26 14 ++ run 0x1fffff0 25 2,
  run 0x1fffff2 25 14 ++ run 0x1ffffffe 29 2]

def pathTo (state : Nat) : HuffmanCode :=
  (huffmanPaths.getD (state / 16) []).getD (state % 16) ⟨0, 0⟩

/-- EOS is the last symbol. -/
def codeOf (symbol : Nat) : HuffmanCode := kHuffmanCodes.getD symbol ⟨0, 0⟩

/-- One code stands at the front of another. -/
def isFront (front code : HuffmanCode) : Bool :=
  Nat.ble front.bits code.bits &&
    Nat.beq (Nat.shiftRight code.code (Nat.sub code.bits front.bits)) front.code

/-- What `decodeNibble` makes of an entry. -/
def outcome (entry : HuffmanDecodeEntry) : Option (Nat × Bytes) :=
  match entry.flags with
  | .FAIL => none
  | .EMIT => some (entry.state, [UInt8.ofNat entry.symbol])
  | .NONE => some (entry.state, [])

/-- What a half byte has to do behind the bits of a path. -/
def stepAgrees (path : HuffmanCode) (nibble : Nat) : Option (Nat × Bytes) → Bool
  | none => isFront (codeOf 256) ⟨path.code * 16 + nibble, path.bits + 4⟩
  | some (next, []) =>
    Nat.ble next 255 && pathTo next == ⟨path.code * 16 + nibble, path.bits + 4⟩
  | some (next, [symbol]) =>
    let code := codeOf symbol.toNat
    let rest := path.bits + 4 - code.bits
    Nat.ble next 255 && isFront code ⟨path.code * 16 + nibble, path.bits + 4⟩ &&
      pathTo next == ⟨(path.code * 16 + nibble) % 2 ^ rest, rest⟩
  | _ => false

/-- The entries of a row, from a half byte on. -/
def rowAgrees (path : HuffmanCode) (nibble : Nat) : List HuffmanDecodeEntry → Bool
  | [] => true
  | entry :: entries =>
    stepAgrees path nibble (outcome entry) && rowAgrees path (nibble + 1) entries

/-- The rows of the table, from a state on. -/
def tableAgrees (state : Nat) : List (List HuffmanDecodeEntry) → Bool
  | [] => true
  | row :: rows => rowAgrees (pathTo state) 0 row && tableAgrees (state + 1) rows

def prefixFree : List HuffmanCode → Bool
  | [] => true
  | code :: codes =>
    (codes.all fun other => !isFront code other && !isFront other code) && prefixFree codes

/-- All tables are evaluated together, so that they are compared only once. -/
theorem tables_checked :
    (kHuffmanCodes.length = 257 ∧ kHuffmanDecodeTable.length = 256 ∧ huffmanPaths.length = 16) ∧
    ((∀ row ∈ kHuffmanDecodeTable, row.length = 16) ∧ ∀ row ∈ huffmanPaths, row.length = 16) ∧
    tableAgrees 0 kHuffmanDecodeTable = true ∧
    prefixFree kHuffmanCodes = true ∧
    (∀ code ∈ kHuffmanCodes, code.code < 2 ^ code.bits ∧ code.bits ≤ 30) ∧
    (∀ row ∈ huffmanPaths, ∀ path ∈ row, path.code < 2 ^ path.bits ∧ path.bits < 30) ∧
    (huffmanPaths.all fun row => row.all fun path =>
      kHuffmanCodes.all fun code => !isFront code path) = true ∧
    (∀ state < 256, state ∈ kHuffmanDecodeAccepting ↔
      (pathTo state).code = 2 ^ (pathTo state).bits - 1) ∧
    ∀ code ∈ kHuffmanCodes, code.bits < 30 → code.code ≠ 2 ^ code.bits - 1 := by
  decide +kernel

theorem table_lengths :
    kHuffmanCodes.length = 257 ∧ kHuffmanDecodeTable.length = 256 ∧ huffmanPaths.length = 16 :=
  tables_checked.1

theorem row_lengths :
    (∀ row ∈ kHuffmanDecodeTable, row.length = 16) ∧ ∀ row ∈ huffmanPaths, row.length = 16 :=
  tables_checked.2.1

theorem table_agrees : tableAgrees 0 kHuffmanDecodeTable = true :=
  tables_checked.2.2.1

theorem codes_prefixFree : prefixFree kHuffmanCodes = true :=
  tables_checked.2.2.2.1

theorem codes_fit : ∀ code ∈ kHuffmanCodes, code.code < 2 ^ code.bits ∧ code.bits ≤ 30 :=
  tables_checked.2.2.2.2.1

theorem paths_fit : ∀ row ∈ huffmanPaths, ∀ path ∈ row,
    path.code < 2 ^ path.bits ∧ path.bits < 30 :=
  tables_checked.2.2.2.2.2.1

theorem paths_codeless : (huffmanPaths.all fun row => row.all fun path =>
    kHuffmanCodes.all fun code => !isFront code path) = true :=
  tables_checked.2.2.2.2.2.2.1

theorem accepting_iff : ∀ state < 256, state ∈ kHuffmanDecodeAccepting ↔
    (pathTo state).code = 2 ^ (pathTo state).bits - 1 :=
  tables_checked.2.2.2.2.2.2.2.1

/-- No code is of ones only but that of EOS, which is longer than a path. -/
theorem codes_notOnes : ∀ code ∈ kHuffmanCodes, code.bits < 30 → code.code ≠ 2 ^ code.bits - 1 :=
  tables_checked.2.2.2.2.2.2.2.2

end Galay.Http2.HpackHuffman
