import Galay.Lib.PrefixCode
import Mathlib.Data.List.Dedup
import Mathlib.Data.List.Pairwise

/-!
# Huffman codes (`galay-utils/algorithm/huffman.hpp`)

The queue of the builder yields a node of the least frequency; which one of several is left open.
An exception is `none`.
-/

namespace Galay.Utils

open Galay.Lib

variable {T : Type*}

/-! ## Tables -/

structure HuffmanCode where
  code : UInt32 := 0
  length : UInt8 := 0
  deriving DecidableEq

inductive HuffmanNode (T : Type*)
  | leaf (symbol : T) (frequency : Nat)
  | node (left right : HuffmanNode T)

/-- A `size_t`. -/
def HuffmanNode.frequency : HuffmanNode T → Nat
  | .leaf _ frequency => frequency
  | .node left right => (left.frequency + right.frequency) % 2 ^ 64

/-- An entry that is stored later covers one of the same key. -/
structure HuffmanTable (T : Type*) where
  encodeTable : List (T × HuffmanCode) := []
  decodeTable : List (HuffmanCode × T) := []

namespace HuffmanTable

variable (table : HuffmanTable T)

def addCode (symbol : T) (code : UInt32) (length : UInt8) : Option (HuffmanTable T) :=
  if 32 < length then none
  else some ⟨(symbol, ⟨code, length⟩) :: table.encodeTable,
    (⟨code, length⟩, symbol) :: table.decodeTable⟩

def getCode [DecidableEq T] (symbol : T) : Option HuffmanCode := table.encodeTable.lookup symbol

def tryGetSymbol (code : UInt32) (length : UInt8) : Option T :=
  table.decodeTable.lookup ⟨code, length⟩

end HuffmanTable

/-! ## The builder -/

def generateCodes : HuffmanNode T → UInt32 → UInt8 → HuffmanTable T → Option (HuffmanTable T)
  | .leaf symbol _, code, length, table =>
    if length = 0 then table.addCode symbol 0 1 else table.addCode symbol code length
  | .node left right, code, length, table =>
    (generateCodes left (code <<< 1) (length + 1) table).bind fun table =>
      generateCodes right ((code <<< 1) ||| 1) (length + 1) table

/-- The loop of `build`: the two least frequent nodes become one, until one is left. -/
inductive Builds : List (HuffmanNode T) → HuffmanNode T → Prop
  | done {root : HuffmanNode T} : Builds [root] root
  | merge {queue rest : List (HuffmanNode T)} {left right root : HuffmanNode T}
      (hqueue : queue.Perm (left :: right :: rest))
      (hleft : ∀ node ∈ right :: rest, left.frequency ≤ node.frequency)
      (hright : ∀ node ∈ rest, right.frequency ≤ node.frequency)
      (hnext : Builds (.node left right :: rest) root) : Builds queue root

/-- A table of `buildFromData`, for some order of the frequencies. -/
def BuildsFromData [DecidableEq T] (data : List T) (table : HuffmanTable T) : Prop :=
  ∃ queue root, queue.Perm (data.dedup.map fun symbol => .leaf symbol (data.count symbol)) ∧
    Builds queue root ∧ generateCodes root 0 0 {} = some table

/-! ## The encoder -/

structure HuffmanEncoder where
  output : Bytes := []
  buffer : Nat := 0
  bufferBits : Fin 8 := 0

namespace HuffmanEncoder

def appendBits (encoder : HuffmanEncoder) (bits : UInt32) (count : Nat) : HuffmanEncoder :=
  if _h : 0 < count then
    let toWrite := min (8 - encoder.bufferBits.val) count
    let extracted := (bits.toNat >>> (count - toWrite)) &&& (2 ^ toWrite - 1)
    let buffer := (encoder.buffer <<< toWrite ||| extracted) % 2 ^ 32
    let bufferBits := encoder.bufferBits.val + toWrite
    if hopen : bufferBits < 8 then
      appendBits { encoder with buffer, bufferBits := ⟨bufferBits, hopen⟩ } bits (count - toWrite)
    else
      appendBits { output := encoder.output ++ [UInt8.ofNat buffer] } bits (count - toWrite)
  else encoder
termination_by count
decreasing_by
  all_goals
    have := encoder.bufferBits.isLt
    omega

def encode [DecidableEq T] (table : HuffmanTable T) (encoder : HuffmanEncoder) : List T → Option HuffmanEncoder
  | [] => some encoder
  | symbol :: symbols =>
    match table.getCode symbol with
    | none => none
    | some code => encode table (encoder.appendBits code.code code.length.toNat) symbols

def finish (encoder : HuffmanEncoder) : Bytes :=
  if encoder.bufferBits = 0 then encoder.output
  else encoder.output ++
    [UInt8.ofNat (encoder.buffer <<< (8 - encoder.bufferBits.val) % 2 ^ 32)]

end HuffmanEncoder

/-! ## The decoder -/

structure HuffmanDecoder (T : Type*) where
  table : HuffmanTable T
  minCodeLen : UInt8 := 1
  maxCodeLen : UInt8 := 32

namespace HuffmanDecoder

variable (decoder : HuffmanDecoder T) (symbolCount : Nat)

/-- The loop over the bits of the data, the highest bit of a byte first. -/
def decodeBits : Bits → UInt32 → UInt8 → List T → Option (List T)
  | [], _, _, result => some result
  | bit :: bits, code, codeLen, result =>
    let code := (code <<< 1) ||| (if bit then 1 else 0)
    let codeLen := codeLen + 1
    match if decoder.minCodeLen ≤ codeLen then decoder.table.tryGetSymbol code codeLen else none with
    | some symbol =>
      let result := result ++ [symbol]
      if 0 < symbolCount ∧ symbolCount ≤ result.length then some result
      else if decoder.maxCodeLen < 0 then none
      else decodeBits bits 0 0 result
    | none => if decoder.maxCodeLen < codeLen then none else decodeBits bits code codeLen result

def decode (data : Bytes) : Option (List T) :=
  decodeBits decoder symbolCount (bitsOfBytes data) 0 0 []

end HuffmanDecoder

/-! ## Codes as strings of bits -/

/-- The code stands for the bits. -/
structure HuffmanCode.Spells (c : HuffmanCode) (bits : Bits) : Prop where
  length_eq : c.length.toNat = bits.length
  code_lt : c.code.toNat < 2 ^ bits.length
  bits_eq : bitsOf bits.length c.code.toNat = bits

namespace HuffmanCode.Spells

variable {c c' : HuffmanCode} {bits bits' : Bits}

theorem inj (h : c.Spells bits) (h' : c'.Spells bits) : c = c' := by
  obtain ⟨code, length⟩ := c
  obtain ⟨code', length'⟩ := c'
  have hlen : length = length' := UInt8.toNat_inj.1 (h.length_eq.trans h'.length_eq.symm)
  have hcode : code = code' :=
    UInt32.toNat_inj.1 (bitsOf_inj h.code_lt h'.code_lt (h.bits_eq.trans h'.bits_eq.symm))
  rw [hlen, hcode]

theorem unique (h : c.Spells bits) (h' : c.Spells bits') : bits = bits' := by
  have hlen := h.length_eq.symm.trans h'.length_eq
  rw [← h.bits_eq, ← h'.bits_eq, hlen]

theorem nil : ({} : HuffmanCode).Spells [] := ⟨rfl, Nat.one_pos, rfl⟩

theorem snoc (h : c.Spells bits) (hlen : bits.length < 32) (bit : Bool) :
    (⟨(c.code <<< 1) ||| (if bit then 1 else 0), c.length + 1⟩ : HuffmanCode).Spells
      (bits ++ [bit]) := by
  have hone : (if bit then 1 else 0 : UInt32).toNat = bit.toNat := by cases bit <;> rfl
  have hbit : bit.toNat < 2 ^ 1 := bit.toNat_lt
  have hcode : ((c.code <<< 1) ||| (if bit then 1 else 0)).toNat =
      (c.code.toNat <<< 1 ||| bit.toNat) % 2 ^ 32 := by
    rw [UInt32.toNat_or, UInt32.toNat_shiftLeft, hone, Nat.or_mod_two_pow,
      Nat.mod_eq_of_lt (hbit.trans (by decide) : bit.toNat < 2 ^ 32)]
    rfl
  have hwidth : (bits ++ [bit]).length = bits.length + 1 := by
    rw [List.length_append, List.length_singleton]
  have hbits := @bitsOf_shiftLeft_or bits.length 1 32 c.code.toNat bit.toNat hlen hbit
  refine ⟨?_, ?_, ?_⟩
  · rw [UInt8.toNat_add, h.length_eq, hwidth]
    exact Nat.mod_eq_of_lt (by change bits.length + 1 < 256; omega)
  · rw [hcode, hwidth]
    refine Nat.lt_of_le_of_lt (Nat.mod_le _ _) (Nat.or_lt_two_pow ?_ ?_)
    · rw [Nat.shiftLeft_eq, Nat.pow_succ]
      exact Nat.mul_lt_mul_of_pos_right h.code_lt (by decide)
    exact hbit.trans_le (Nat.pow_le_pow_right Nat.two_pos (Nat.le_add_left _ _))
  rw [hwidth, hcode, hbits, h.bits_eq]
  cases bit <;> rfl

end HuffmanCode.Spells

/-! ## The codes of a tree -/

namespace HuffmanNode

def symbols : HuffmanNode T → List T
  | .leaf symbol _ => [symbol]
  | .node left right => left.symbols ++ right.symbols

/-- The symbols with the bits that lead to them. -/
def paths : HuffmanNode T → Bits → List (T × Bits)
  | .leaf symbol _, path => [(symbol, path)]
  | .node left right, path => left.paths (path ++ [false]) ++ right.paths (path ++ [true])

/-- The depth of a leaf that is not deep. -/
def shallow : HuffmanNode T → Nat
  | .leaf _ _ => 0
  | .node left right => min left.shallow right.shallow + 1

/-- The code of a symbol that is alone has one bit. -/
def codes : HuffmanNode T → List (T × Bits)
  | .leaf symbol _ => [(symbol, [false])]
  | root => root.paths []

variable (node : HuffmanNode T)

theorem map_paths (path : Bits) :
    (node.paths path).map Prod.fst = node.symbols := by
  induction node generalizing path with
  | leaf symbol frequency => rfl
  | node left right hleft hright => rw [paths, symbols, List.map_append, hleft, hright]

theorem map_codes (root : HuffmanNode T) : root.codes.map Prod.fst = root.symbols := by
  cases root with
  | leaf symbol frequency => rfl
  | node left right => exact map_paths _ []

theorem two_pow_shallow_le : 2 ^ node.shallow ≤ node.symbols.length := by
  induction node with
  | leaf symbol frequency => exact Nat.le_refl 1
  | node left right hleft hright =>
  have hmin : 2 ^ min left.shallow right.shallow ≤ left.symbols.length :=
    (Nat.pow_le_pow_right Nat.two_pos (Nat.min_le_left ..)).trans hleft
  have hmin' : 2 ^ min left.shallow right.shallow ≤ right.symbols.length :=
    (Nat.pow_le_pow_right Nat.two_pos (Nat.min_le_right ..)).trans hright
  rw [shallow, symbols, List.length_append, Nat.pow_succ]
  omega

theorem isPrefix_of_mem_paths {node : HuffmanNode T}
    (h : entry ∈ node.paths path) : path <+: entry.2 := by
  induction node generalizing path with
  | leaf symbol frequency =>
    obtain rfl := List.mem_singleton.1 h
    exact List.prefix_refl path
  | node left right hleft hright =>
  rcases List.mem_append.1 h with h | h
  · exact (List.prefix_append _ _).trans (hleft h)
  exact (List.prefix_append _ _).trans (hright h)

/-- Neither stands at the front of the other. -/
def Apart (entry entry' : T × Bits) : Prop := ¬ entry.2 <+: entry'.2 ∧ ¬ entry'.2 <+: entry.2

theorem apart_of_sides {path : Bits} {entry' : T × Bits}
    (h : path ++ [false] <+: entry.2) (h' : path ++ [true] <+: entry'.2) : Apart entry entry' := by
  have hne {bits : Bits} (hfalse : path ++ [false] <+: bits) (htrue : path ++ [true] <+: bits) :
      False := by
    have heq := (List.prefix_of_prefix_length_le hfalse htrue (by simp)).eq_of_length (by simp)
    simp at heq
  exact ⟨fun hpre => hne (h.trans hpre) h', fun hpre => hne h (h'.trans hpre)⟩

theorem pairwise_paths (path : Bits) :
    (node.paths path).Pairwise Apart := by
  induction node generalizing path with
  | leaf symbol frequency => exact List.pairwise_singleton _ _
  | node left right hleft hright =>
  refine List.pairwise_append.2 ⟨hleft _, hright _, fun entry h entry' h' => ?_⟩
  exact apart_of_sides (isPrefix_of_mem_paths h) (isPrefix_of_mem_paths h')

theorem pairwise_codes (root : HuffmanNode T) : root.codes.Pairwise Apart := by
  cases root with
  | leaf symbol frequency => exact List.pairwise_singleton _ _
  | node left right => exact pairwise_paths _ []

end HuffmanNode

theorem Builds.symbols_perm {root : HuffmanNode T}
    (h : Builds queue root) : (queue.flatMap HuffmanNode.symbols).Perm root.symbols := by
  induction h with
  | done => simp
  | merge hqueue _ _ _ ih =>
  refine (hqueue.flatMap_right _).trans (List.Perm.trans (List.Perm.of_eq ?_) ih)
  simp [HuffmanNode.symbols]

/-! ## The table of a tree -/

/-- The table holds these codes. -/
structure HuffmanTable.Holds (table : HuffmanTable T) (codes : List (T × Bits)) : Prop where
  keys : table.encodeTable.map Prod.fst = codes.map Prod.fst
  spells : ∀ entry ∈ table.encodeTable, ∃ bits, (entry.1, bits) ∈ codes ∧ entry.2.Spells bits
  decode : table.decodeTable = table.encodeTable.map Prod.swap
  length : ∀ code ∈ codes, code.2 ≠ [] ∧ code.2.length ≤ 32

theorem HuffmanTable.Holds.addCode {table : HuffmanTable T}
    (h : table.Holds codes) (symbol : T) {c : HuffmanCode} (hc : c.Spells bits)
    (hnil : bits ≠ []) (hlen : bits.length ≤ 32) :
    ∃ table', table.addCode symbol c.code c.length = some table' ∧
      table'.Holds ((symbol, bits) :: codes) := by
  have hle : ¬ 32 < c.length := by
    rw [UInt8.lt_iff_toNat_lt, hc.length_eq]
    exact Nat.not_lt.2 hlen
  refine ⟨_, if_neg hle, congrArg (symbol :: ·) h.keys, ?_, congrArg (_ :: ·) h.decode,
    List.forall_mem_cons.2 ⟨⟨hnil, hlen⟩, h.length⟩⟩
  refine List.forall_mem_cons.2 ⟨⟨bits, List.mem_cons_self, hc⟩, fun entry hmem => ?_⟩
  obtain ⟨bits', hcode, hspells⟩ := h.spells entry hmem
  exact ⟨bits', List.mem_cons_of_mem _ hcode, hspells⟩

/-- A tree with a leaf whose code is too long has no table. -/
theorem generateCodes_none (node : HuffmanNode T) (hlong : 32 < length.toNat)
    (hshallow : length.toNat + node.shallow < 256) : generateCodes node code length table = none := by
  induction node generalizing code length table with
  | leaf symbol frequency =>
    have hne : length ≠ 0 := by
      rintro rfl
      cases hlong
    rw [generateCodes, if_neg hne]
    exact if_pos (show (32 : UInt8) < length from UInt8.lt_iff_toNat_lt.2 hlong)
  | node left right hleft hright =>
  have hnext (h : length.toNat + 1 < 256) : (length + 1).toNat = length.toNat + 1 := by
    rw [UInt8.toNat_add]
    exact Nat.mod_eq_of_lt h
  rw [HuffmanNode.shallow] at hshallow
  have hlen := hnext (by omega)
  rw [generateCodes]
  rcases Nat.le_total left.shallow right.shallow with hle | hle
  · rw [hleft (by omega) (by omega), Option.bind_none]
  exact Option.bind_eq_none_iff.2 fun table' _ => hright (by omega) (by omega)

theorem generateCodes_holds (node : HuffmanNode T) {c : HuffmanCode}
    (hsize : node.symbols.length < 2 ^ 64) (hc : c.Spells path) (hlen : path.length ≤ 32)
    (hpath : path ≠ [] ∨ ∃ left right, node = .node left right) (htable : table.Holds codes)
    (h : generateCodes node c.code c.length table = some result) :
    result.Holds ((node.paths path).reverse ++ codes) := by
  induction node generalizing c path table result codes with
  | leaf symbol frequency =>
    have hnil : path ≠ [] := hpath.resolve_right nofun
    have hne : c.length ≠ 0 := by
      intro hzero
      have heq := hc.length_eq
      rw [hzero] at heq
      exact hnil (List.length_eq_zero_iff.1 heq.symm)
    obtain ⟨table', hadd, hholds⟩ := htable.addCode symbol hc hnil hlen
    rw [generateCodes, if_neg hne, hadd] at h
    cases h
    exact hholds
  | node left right hleft hright =>
  rw [HuffmanNode.symbols, List.length_append] at hsize
  obtain ⟨table', hfirst, hsecond⟩ := Option.bind_eq_some_iff.1 h
  have hshort : path.length < 32 := by
    refine lt_of_le_of_ne hlen fun heq => ?_
    have hpow := (left.two_pow_shallow_le.trans (Nat.le_add_right ..)).trans_lt hsize
    have hdepth := (Nat.pow_lt_pow_iff_right (by decide)).1 hpow
    have hlong : (c.length + 1).toNat = 33 := by
      rw [UInt8.toNat_add, hc.length_eq, heq]
      rfl
    rw [generateCodes_none left (by omega) (by omega)] at hfirst
    cases hfirst
  have hlast : (path ++ [true]).length ≤ 32 := by
    rw [List.length_append]
    exact hshort
  have hzero := hc.snoc hshort false
  rw [if_neg Bool.false_ne_true, UInt32.or_zero] at hzero
  have hholds := hright (by omega) (hc.snoc hshort true) hlast (.inl (by simp))
    (hleft (by omega) hzero (by simpa using hlast) (.inl (by simp)) htable hfirst) hsecond
  rwa [HuffmanNode.paths, List.reverse_append, List.append_assoc]

theorem generateCodes_root {root : HuffmanNode T}
    (hsize : root.symbols.length < 2 ^ 64) (h : generateCodes root 0 0 {} = some table) :
    table.Holds root.codes.reverse := by
  have hempty : ({} : HuffmanTable T).Holds [] := ⟨rfl, nofun, rfl, nofun⟩
  cases root with
  | leaf symbol frequency =>
    obtain ⟨table', hadd, hholds⟩ := hempty.addCode symbol
      (HuffmanCode.Spells.nil.snoc (by decide) false) (by decide) (by decide)
    have heq : generateCodes (.leaf symbol frequency) 0 0 ({} : HuffmanTable T) = some table' := hadd
    rw [heq] at h
    cases h
    exact hholds
  | node left right =>
  have hholds := generateCodes_holds (.node left right) hsize .nil (by decide) (.inr ⟨_, _, rfl⟩)
    hempty h
  rwa [List.append_nil] at hholds

/-! ## Lookups -/

/-- The codes of different symbols, none in front of another. -/
structure Codes (codes : List (T × Bits)) : Prop where
  nodup : (codes.map Prod.fst).Nodup
  apart : codes.Pairwise HuffmanNode.Apart

theorem Codes.eq_of_isPrefix (h : Codes codes) {entry' : T × Bits}
    (hmem : entry ∈ codes) (hmem' : entry' ∈ codes) (hpre : entry.2 <+: entry'.2) :
    entry = entry' := by
  by_contra hne
  have : Std.Symm (HuffmanNode.Apart (T := T)) := ⟨fun _ _ h => ⟨h.2, h.1⟩⟩
  exact (h.apart.forall hmem hmem' hne).1 hpre

section

variable [DecidableEq T] {table : HuffmanTable T} {codes : List (T × Bits)} {symbol : T}
  {c : HuffmanCode} {bits : Bits} (H : table.Holds codes) (C : Codes codes)
include H

theorem HuffmanTable.Holds.mem_of_getCode (hcode : table.getCode symbol = some c) :
    ∃ bits, (symbol, bits) ∈ codes ∧ c.Spells bits := by
  obtain ⟨front, back, heq, -⟩ := List.lookup_eq_some_iff.1 hcode
  exact H.spells (symbol, c) (by simp [heq])

omit [DecidableEq T] in
theorem HuffmanTable.Holds.mem_of_tryGetSymbol
    (hsymbol : table.tryGetSymbol c.code c.length = some symbol) (hc : c.Spells bits) :
    (symbol, bits) ∈ codes := by
  obtain ⟨front, back, heq, -⟩ := List.lookup_eq_some_iff.1 hsymbol
  have hdecode : (c, symbol) ∈ table.encodeTable.map Prod.swap := by simp [← H.decode, heq]
  obtain ⟨entry, hentry, hswap⟩ := List.mem_map.1 hdecode
  obtain ⟨bits', hmem, hc'⟩ := H.spells entry hentry
  cases hswap
  rwa [hc.unique hc']

include C

theorem HuffmanTable.Holds.getCode (hmem : (symbol, bits) ∈ codes) :
    ∃ c, table.getCode symbol = some c ∧ c.Spells bits := by
  have hkey : symbol ∈ table.encodeTable.map Prod.fst := by
    rw [H.keys]
    exact List.mem_map_of_mem hmem
  obtain ⟨entry, hentry, rfl⟩ := List.mem_map.1 hkey
  cases hcode : table.getCode entry.1 with
  | none => simpa using List.lookup_eq_none_iff.1 hcode entry hentry
  | some c =>
  obtain ⟨bits', hmem', hc⟩ := H.mem_of_getCode hcode
  have hsame := List.inj_on_of_nodup_map C.nodup hmem hmem' rfl
  cases hsame
  exact ⟨c, rfl, hc⟩

theorem HuffmanTable.Holds.tryGetSymbol (hmem : (symbol, bits) ∈ codes) (hc : c.Spells bits) :
    table.tryGetSymbol c.code c.length = some symbol := by
  obtain ⟨c', hcode, hc'⟩ := H.getCode C hmem
  obtain ⟨front, back, heq, -⟩ := List.lookup_eq_some_iff.1 hcode
  have hentry : (c, symbol) ∈ table.decodeTable := by
    rw [hc.inj hc', H.decode, heq]
    simp
  cases hsymbol : table.tryGetSymbol c.code c.length with
  | none => simpa using List.lookup_eq_none_iff.1 hsymbol _ hentry
  | some symbol' =>
  have hsame := C.eq_of_isPrefix (H.mem_of_tryGetSymbol hsymbol hc) hmem (List.prefix_refl _)
  cases hsame
  rfl

end

/-! ## Bits that are written -/

namespace HuffmanEncoder

variable (encoder : HuffmanEncoder)

/-- The bits that have been written. -/
def bits : Bits :=
  bitsOfBytes encoder.output ++ bitsOf encoder.bufferBits.val encoder.buffer

theorem bitsOf_ofNat (value : Nat) : bitsOfBytes [UInt8.ofNat value] = bitsOf 8 value := by
  rw [bitsOfBytes, List.flatMap_singleton, UInt8.toNat_ofNat']
  exact bitsOf_mod 8 value

theorem bits_appendBits (bits : UInt32) (count : Nat) :
    (encoder.appendBits bits count).bits = encoder.bits ++ bitsOf count bits.toNat := by
  have hbuffer (encoder : HuffmanEncoder) (count toWrite : Nat) (hle : toWrite ≤ count)
      (hfits : encoder.bufferBits.val + toWrite ≤ 8) :
      bitsOf (encoder.bufferBits.val + toWrite) ((encoder.buffer <<< toWrite |||
        (bits.toNat >>> (count - toWrite)) &&& (2 ^ toWrite - 1)) % 2 ^ 32) ++
          bitsOf (count - toWrite) bits.toNat =
        bitsOf encoder.bufferBits.val encoder.buffer ++ bitsOf count bits.toNat := by
    have hsplit := bitsOf_add toWrite (count - toWrite) bits.toNat
    rw [Nat.add_sub_cancel' hle] at hsplit
    rw [Nat.and_two_pow_sub_one_eq_mod, bitsOf_shiftLeft_or (by omega)
      (Nat.mod_lt _ (Nat.two_pow_pos _)), bitsOf_mod, List.append_assoc, hsplit]
  fun_induction HuffmanEncoder.appendBits encoder bits count with
  | case1 encoder count hcount toWrite extracted buffer bufferBits hopen ih =>
    rw [ih, HuffmanEncoder.bits, HuffmanEncoder.bits, List.append_assoc, List.append_assoc]
    exact congrArg _ (hbuffer encoder count toWrite (Nat.min_le_right ..) (by omega))
  | case2 encoder count hcount toWrite extracted buffer bufferBits hfull ih =>
    have hwidth : encoder.bufferBits.val + toWrite = 8 := by omega
    rw [ih, HuffmanEncoder.bits, HuffmanEncoder.bits, bitsOfBytes_append, bitsOf_ofNat,
      List.append_assoc, List.append_assoc, List.append_assoc]
    refine congrArg _ ?_
    rw [← hbuffer encoder count toWrite (Nat.min_le_right ..) (by omega), hwidth]
    rfl
  | case3 encoder count hcount =>
  rw [Nat.eq_zero_of_not_pos hcount, bitsOf, List.append_nil]

theorem bits_finish :
    ∃ padding, bitsOfBytes encoder.finish = encoder.bits ++ padding := by
  rw [finish, bits]
  split
  · next hzero =>
    rw [hzero]
    exact ⟨[], by simp [bitsOf]⟩
  have hlt := encoder.bufferBits.isLt
  have hbits := @bitsOf_shiftLeft_or encoder.bufferBits.val (8 - encoder.bufferBits.val) 32
    encoder.buffer 0 (by omega) (Nat.two_pow_pos _)
  rw [Nat.or_zero, Nat.add_sub_cancel' (Nat.le_of_lt hlt)] at hbits
  rw [bitsOfBytes_append, bitsOf_ofNat, hbits, ← List.append_assoc]
  exact ⟨_, rfl⟩

end HuffmanEncoder

theorem HuffmanEncoder.encode_bits [DecidableEq T] {word : T → Bits}
    (hword : ∀ symbol ∈ symbols, ∃ c, table.getCode symbol = some c ∧ c.Spells (word symbol))
    (encoder : HuffmanEncoder) : ∃ encoder', encode table encoder symbols = some encoder' ∧
      encoder'.bits = encoder.bits ++ symbols.flatMap word := by
  induction symbols generalizing encoder with
  | nil => exact ⟨encoder, rfl, (List.append_nil _).symm⟩
  | cons symbol symbols ih =>
  obtain ⟨⟨c, hcode, hc⟩, hrest⟩ := List.forall_mem_cons.1 hword
  obtain ⟨encoder', hencode, hbits⟩ := ih hrest (encoder.appendBits c.code c.length.toNat)
  refine ⟨encoder', ?_, ?_⟩
  · rw [encode, hcode]
    exact hencode
  rw [hbits, bits_appendBits, hc.length_eq, hc.bits_eq, List.flatMap_cons, List.append_assoc]

/-! ## Bits that are read -/

section

variable [DecidableEq T] {table : HuffmanTable T} {codes : List (T × Bits)} {symbolCount : Nat}
  (H : table.Holds codes) (C : Codes codes)
include H C

/-- One code, of which the front has been read. -/
theorem HuffmanTable.Holds.decodeBits_code {c : HuffmanCode}
    {back : Bits} (hc : c.Spells front) (hback : back ≠ [])
    (hmem : (symbol, front ++ back) ∈ codes) (rest : Bits) (result : List T) :
    HuffmanDecoder.decodeBits { table } symbolCount (back ++ rest) c.code c.length result =
      if 0 < symbolCount ∧ symbolCount ≤ (result ++ [symbol]).length then some (result ++ [symbol])
      else HuffmanDecoder.decodeBits { table } symbolCount rest 0 0 (result ++ [symbol]) := by
  induction back generalizing front c with
  | nil => exact absurd rfl hback
  | cons bit back ih =>
  have hlen := (H.length _ hmem).2
  simp only [List.length_append, List.length_cons] at hlen
  have hc' := hc.snoc (by omega) bit
  have hwidth := hc'.length_eq
  rw [List.length_append, List.length_singleton] at hwidth
  have hmin : (1 : UInt8) ≤ c.length + 1 := by
    rw [UInt8.le_iff_toNat_le, hwidth]
    exact Nat.le_add_left _ _
  have hmax : ¬ (32 : UInt8) < c.length + 1 := by
    rw [UInt8.lt_iff_toNat_lt, hwidth]
    exact Nat.not_lt.2 (by change front.length + 1 ≤ 32; omega)
  rw [List.cons_append, HuffmanDecoder.decodeBits]
  simp only [if_pos hmin]
  rcases eq_or_ne back [] with rfl | hback
  · have hsymbol := H.tryGetSymbol C hmem hc'
    simp only [hsymbol]
    rw [if_neg (show ¬ (32 : UInt8) < 0 by decide)]
    rfl
  rw [List.append_cons] at hmem
  have hnone : table.tryGetSymbol (c.code <<< 1 ||| if bit then 1 else 0) (c.length + 1) = none := by
    refine Option.eq_none_iff_forall_ne_some.2 fun symbol' hsymbol => hback ?_
    have heq := C.eq_of_isPrefix (H.mem_of_tryGetSymbol hsymbol hc') hmem (List.prefix_append _ _)
    simpa using congrArg Prod.snd heq
  simp only [hnone]
  rw [if_neg hmax]
  exact ih hc' hback hmem

/-- The padding is not read. -/
theorem HuffmanTable.Holds.decodeBits_word {word : T → Bits}
    (hnil : symbols ≠ []) (hword : ∀ symbol ∈ symbols, (symbol, word symbol) ∈ codes)
    (hcount : result.length + symbols.length = symbolCount) (padding : Bits) :
    HuffmanDecoder.decodeBits { table } symbolCount (symbols.flatMap word ++ padding) 0 0 result =
      some (result ++ symbols) := by
  induction symbols generalizing result with
  | nil => exact absurd rfl hnil
  | cons symbol symbols ih =>
  obtain ⟨hmem, hrest⟩ := List.forall_mem_cons.1 hword
  rw [List.flatMap_cons, List.append_assoc]
  refine (H.decodeBits_code C .nil (H.length _ hmem).1 hmem _ result).trans ?_
  rw [List.length_append, List.length_singleton]
  rw [List.length_cons] at hcount
  rcases eq_or_ne symbols [] with rfl | hsymbols
  · exact if_pos ⟨by omega, Nat.le_of_eq hcount.symm⟩
  have hpos := List.length_pos_iff.2 hsymbols
  have hnext : (result ++ [symbol]).length + symbols.length = symbolCount := by
    rw [List.length_append, List.length_singleton]
    omega
  rw [if_neg (by omega), ih hsymbols hrest hnext, List.append_assoc]
  rfl

end

/-! ## The round trip -/

/-- Every code is a string of bits, and none stands in front of the code of another symbol. -/
def HuffmanTable.PrefixFree [DecidableEq T] (table : HuffmanTable T) : Prop :=
  ∀ symbol c, table.getCode symbol = some c → ∃ bits, c.Spells bits ∧
    ∀ symbol' c' bits', table.getCode symbol' = some c' → c'.Spells bits' → bits <+: bits' →
      symbol = symbol'

theorem BuildsFromData.holds [DecidableEq T] {data : List T}
    (hsize : data.length < 2 ^ 64) (h : BuildsFromData data table) :
    ∃ codes, table.Holds codes ∧ Codes codes ∧ ∀ symbol ∈ data, ∃ bits, (symbol, bits) ∈ codes := by
  obtain ⟨queue, root, hqueue, hbuilds, hcodes⟩ := h
  have hsymbols : root.symbols.Perm data.dedup := by
    refine hbuilds.symbols_perm.symm.trans ((hqueue.flatMap_right _).trans (List.Perm.of_eq ?_))
    rw [List.flatMap_map]
    exact List.flatMap_singleton' _
  have hlen : root.symbols.length < 2 ^ 64 := by
    rw [hsymbols.length_eq]
    exact (List.dedup_sublist data).length_le.trans_lt hsize
  have hmap : root.codes.reverse.map Prod.fst = root.symbols.reverse := by
    rw [List.map_reverse, root.map_codes]
  have hkeys : (root.codes.reverse.map Prod.fst).Perm data.dedup := by
    rw [hmap]
    exact (List.reverse_perm _).trans hsymbols
  refine ⟨_, generateCodes_root hlen hcodes, ⟨hkeys.nodup_iff.2 data.nodup_dedup, ?_⟩, ?_⟩
  · exact List.pairwise_reverse.2 (root.pairwise_codes.imp And.symm)
  intro symbol hmem
  obtain ⟨entry, hentry, rfl⟩ := List.mem_map.1 (hkeys.mem_iff.2 (List.mem_dedup.2 hmem))
  exact ⟨entry.2, hentry⟩

/-- The table of the data is free of codes in front of others, and the data is read as it was
written. -/
theorem huffman_round_trip [DecidableEq T] {data : List T} {table : HuffmanTable T}
    (hnil : data ≠ []) (hsize : data.length < 2 ^ 64) (h : BuildsFromData data table) :
    table.PrefixFree ∧ ∃ encoder, HuffmanEncoder.encode table {} data = some encoder ∧
      HuffmanDecoder.decode { table } data.length encoder.finish = some data := by
  obtain ⟨codes, H, C, hdata⟩ := h.holds hsize
  refine ⟨fun symbol c hcode => ?_, ?_⟩
  · obtain ⟨bits, hmem, hc⟩ := H.mem_of_getCode hcode
    refine ⟨bits, hc, fun symbol' c' bits' hcode' hc' hpre => ?_⟩
    obtain ⟨bits'', hmem', hc''⟩ := H.mem_of_getCode hcode'
    rw [hc'.unique hc''] at hpre
    exact congrArg Prod.fst (C.eq_of_isPrefix hmem hmem' hpre)
  choose! word hword using hdata
  obtain ⟨encoder, hencode, hbits⟩ :=
    HuffmanEncoder.encode_bits (fun symbol hmem => H.getCode C (hword symbol hmem)) {}
  obtain ⟨padding, hpadding⟩ := encoder.bits_finish
  refine ⟨encoder, hencode, ?_⟩
  rw [HuffmanDecoder.decode, hpadding, hbits]
  exact H.decodeBits_word C hnil hword (Nat.zero_add _) padding

theorem huffman_round_trip_two :
    ∃ table : HuffmanTable Bool, table.PrefixFree ∧
      ∃ encoder, HuffmanEncoder.encode table {} [true, false, true] = some encoder ∧
        HuffmanDecoder.decode { table } 3 encoder.finish = some [true, false, true] :=
  ⟨_, huffman_round_trip (by decide) (by decide)
    ⟨[.leaf false 1, .leaf true 2], .node (.leaf false 1) (.leaf true 2), List.Perm.refl _,
      .merge (List.Perm.refl _) (by decide) nofun .done, rfl⟩⟩

end Galay.Utils
