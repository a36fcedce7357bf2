import Galay.Http2.Hpack.HuffmanPaths

/-!
# The Huffman code there and back

What `encode` writes is the code words of its input and then ones, at most seven of them. What
`decode` accepts is code words and then ones as well, but as many as a state can stand for.
-/

namespace Galay.Http2.HpackHuffman

open List
open Galay.Lib

def toBits (code : HuffmanCode) : Bits := bitsOf code.bits code.code

theorem length_toBits (code : HuffmanCode) : (toBits code).length = code.bits :=
  length_bitsOf _ _

theorem isFront_iff (hfront : front.code < 2 ^ front.bits) (hcode : code.code < 2 ^ code.bits) :
    isFront front code = true ↔ toBits front <+: toBits code := by
  have hle : isFront front code = true ↔ front.bits ≤ code.bits ∧
      code.code >>> (code.bits - front.bits) = front.code := by
    rw [isFront, Bool.and_eq_true, Nat.ble_eq, Nat.beq_eq]
    rfl
  rw [hle]
  constructor
  · rintro ⟨hbits, hshift⟩
    refine ⟨bitsOf (code.bits - front.bits) code.code, ?_⟩
    have hsplit := bitsOf_add front.bits (code.bits - front.bits) code.code
    rw [Nat.add_sub_cancel' hbits, hshift] at hsplit
    exact hsplit.symm
  rintro hpre
  have hbits : front.bits ≤ code.bits := by simpa only [length_toBits] using hpre.length_le
  refine ⟨hbits, ?_⟩
  obtain ⟨rest, hrest⟩ := hpre
  have hsplit := bitsOf_add front.bits (code.bits - front.bits) code.code
  rw [Nat.add_sub_cancel' hbits] at hsplit
  have hheads := (append_inj (hsplit.symm.trans hrest.symm)
    (by rw [length_bitsOf, length_toBits])).1
  refine bitsOf_inj ?_ hfront hheads
  rw [Nat.shiftRight_eq_div_pow]
  refine Nat.div_lt_of_lt_mul ?_
  rw [← Nat.pow_add, Nat.sub_add_cancel hbits]
  exact hcode

/-! ## The code words -/

/-- A byte, or EOS. -/
abbrev Symbol := Option UInt8

def symbolIndex : Symbol → Nat
  | some c => c.toNat
  | none => 256

theorem symbolIndex_lt (symbol : Symbol) : symbolIndex symbol < kHuffmanCodes.length := by
  rw [table_lengths.1]
  cases symbol with
  | some c => exact c.toNat_lt.trans (by decide)
  | none => decide

theorem symbolIndex_inj (h : symbolIndex a = symbolIndex b) : a = b := by
  cases a with
  | some c =>
    cases b with
    | some c' => rw [UInt8.toNat_inj.1 h]
    | none => exact absurd h c.toNat_lt.ne
  | none =>
  cases b with
  | some c' => exact absurd h.symm c'.toNat_lt.ne
  | none => rfl

theorem codeOf_mem (symbol : Symbol) : codeOf (symbolIndex symbol) ∈ kHuffmanCodes := by
  rw [codeOf, getD_eq_getElem _ _ (symbolIndex_lt symbol)]
  exact getElem_mem _

def codeBits (symbol : Symbol) : Bits := toBits (codeOf (symbolIndex symbol))

theorem pairwise_of_prefixFree (h : prefixFree codes = true) :
    codes.Pairwise fun a b => isFront a b = false ∧ isFront b a = false := by
  induction codes with
  | nil => exact List.Pairwise.nil
  | cons code codes ih =>
  rw [prefixFree, Bool.and_eq_true, all_eq_true] at h
  refine List.Pairwise.cons (fun other hother => ?_) (ih h.2)
  have := h.1 other hother
  rw [Bool.and_eq_true, Bool.not_eq_true', Bool.not_eq_true'] at this
  exact this

theorem codeBits_prefixFree : PrefixFree codeBits := by
  intro a b hab
  have hfront := (isFront_iff (codes_fit _ (codeOf_mem a)).1 (codes_fit _ (codeOf_mem b)).1).2 hab
  have hpairs := List.pairwise_iff_getElem.1 (pairwise_of_prefixFree codes_prefixFree)
  rw [codeOf, codeOf, getD_eq_getElem _ _ (symbolIndex_lt a),
    getD_eq_getElem _ _ (symbolIndex_lt b)] at hfront
  rcases Nat.lt_trichotomy (symbolIndex a) (symbolIndex b) with hlt | heq | hgt
  · rw [(hpairs _ _ (symbolIndex_lt a) (symbolIndex_lt b) hlt).1] at hfront
    cases hfront
  · exact symbolIndex_inj heq
  rw [(hpairs _ _ (symbolIndex_lt b) (symbolIndex_lt a) hgt).2] at hfront
  cases hfront

def ones (width : Nat) : Bits := List.replicate width true

variable {width : Nat}

theorem ones_codeless (hwidth : width < 30) : Codeless codeBits (ones width) := by
  intro symbol hpre
  have hmem := codeOf_mem symbol
  have hbits : (codeOf (symbolIndex symbol)).bits ≤ width := by
    have := hpre.length_le
    rwa [codeBits, length_toBits, ones, length_replicate] at this
  refine codes_notOnes _ hmem (hbits.trans_lt hwidth) (eq_ones_of_bitsOf (codes_fit _ hmem).1 ?_)
  obtain ⟨rest, hrest⟩ := hpre
  refine List.eq_replicate_iff.2 ⟨length_bitsOf _ _, fun b hb => ?_⟩
  exact eq_of_mem_replicate (hrest ▸ mem_append_left rest hb : b ∈ ones width)

/-! ## The states -/

theorem pathTo_mem (hst : state < 256) : ∃ row ∈ huffmanPaths, pathTo state ∈ row := by
  obtain ⟨-, -, hrows⟩ := table_lengths
  obtain ⟨-, hrow⟩ := row_lengths
  have hdiv : state / 16 < huffmanPaths.length := by
    rw [hrows]
    omega
  have hmem := getElem_mem hdiv
  refine ⟨_, hmem, ?_⟩
  have hmod : state % 16 < (huffmanPaths[state / 16]).length := by
    rw [hrow _ hmem]
    exact Nat.mod_lt _ (by decide)
  rw [pathTo, getD_eq_getElem _ _ hdiv, getD_eq_getElem _ _ hmod]
  exact getElem_mem _

def pathBits (state : Nat) : Bits := toBits (pathTo state)

theorem pathTo_fits (hst : state < 256) :
    (pathTo state).code < 2 ^ (pathTo state).bits ∧ (pathTo state).bits < 30 := by
  obtain ⟨row, hrow, hmem⟩ := pathTo_mem hst
  exact paths_fit row hrow _ hmem

theorem pathBits_codeless (hst : state < 256) : Codeless codeBits (pathBits state) := by
  intro symbol hpre
  obtain ⟨row, hrow, hmem⟩ := pathTo_mem hst
  have hcheck := List.all_eq_true.1 (List.all_eq_true.1
    (List.all_eq_true.1 paths_codeless row hrow) _ hmem) _ (codeOf_mem symbol)
  have hfront := (isFront_iff (codes_fit _ (codeOf_mem symbol)).1 (pathTo_fits hst).1).2 hpre
  rw [hfront] at hcheck
  cases hcheck

theorem accepting_iff_ones (hst : state < 256) :
    state ∈ kHuffmanDecodeAccepting ↔ pathBits state = ones (pathTo state).bits := by
  rw [accepting_iff state hst]
  constructor
  · intro h
    rw [pathBits, toBits, h, bitsOf_ones]
    rfl
  exact eq_ones_of_bitsOf (pathTo_fits hst).1

/-! ## Reading -/

variable {state nibble : Nat}

theorem pathBits_append (hnibble : nibble < 16) :
    pathBits state ++ bitsOf 4 nibble =
      toBits ⟨(pathTo state).code * 16 + nibble, (pathTo state).bits + 4⟩ := by
  have hshift : ((pathTo state).code * 16 + nibble) >>> 4 = (pathTo state).code := by
    rw [Nat.shiftRight_eq_div_pow]
    omega
  have hlow : bitsOf 4 ((pathTo state).code * 16 + nibble) = bitsOf 4 nibble := by
    rw [← bitsOf_mod 4 ((pathTo state).code * 16 + nibble)]
    congr 1
    omega
  rw [toBits, bitsOf_add, hshift, hlow]
  rfl

theorem rowAgrees_getElem (h : rowAgrees path first row = true) (hi : i < row.length) :
    stepAgrees path (first + i) (outcome row[i]) = true := by
  induction row generalizing first i with
  | nil => cases hi
  | cons entry row ih =>
  rw [rowAgrees, Bool.and_eq_true] at h
  cases i with
  | zero => exact h.1
  | succ i =>
  have := ih h.2 (Nat.lt_of_succ_lt_succ hi)
  rwa [Nat.add_assoc, Nat.add_comm 1] at this

theorem tableAgrees_getElem (h : tableAgrees first rows = true) (hi : i < rows.length) :
    rowAgrees (pathTo (first + i)) 0 rows[i] = true := by
  induction rows generalizing first i with
  | nil => cases hi
  | cons row rows ih =>
  rw [tableAgrees, Bool.and_eq_true] at h
  cases i with
  | zero => exact h.1
  | succ i =>
  have := ih h.2 (Nat.lt_of_succ_lt_succ hi)
  rwa [Nat.add_assoc, Nat.add_comm 1] at this

theorem decodeNibble_agrees (hst : state < 256) (hnibble : nibble < 16) :
    stepAgrees (pathTo state) nibble (decodeNibble state nibble) = true := by
  obtain ⟨-, hrows, -⟩ := table_lengths
  obtain ⟨hrow, -⟩ := row_lengths
  have hst' : state < kHuffmanDecodeTable.length := hrows ▸ hst
  have hnibble' : nibble < kHuffmanDecodeTable[state].length := by
    rw [hrow _ (getElem_mem hst')]
    exact hnibble
  have hagrees := rowAgrees_getElem (tableAgrees_getElem table_agrees hst') hnibble'
  rw [Nat.zero_add, Nat.zero_add] at hagrees
  rw [decodeNibble, getD_eq_getElem _ _ hst', getD_eq_getElem _ _ hnibble']
  exact hagrees

/-- The code words of a string. -/
def codesOf (s : Bytes) : Bits := (s.map some).flatMap codeBits

theorem codesOf_append (s t : Bytes) : codesOf (s ++ t) = codesOf s ++ codesOf t := by
  rw [codesOf, map_append, flatMap_append]
  rfl

@[simp] theorem codesOf_nil : codesOf [] = [] := rfl

theorem codesOf_cons (c : UInt8) (s : Bytes) : codesOf (c :: s) = codeBits (some c) ++ codesOf s :=
  rfl

/-- The code word of EOS has been read where there is no next state. -/
theorem decodeNibble_none (hst : state < 256) (hnibble : nibble < 16)
    (h : decodeNibble state nibble = none) :
    codeBits none <+: pathBits state ++ bitsOf 4 nibble := by
  have hagrees := decodeNibble_agrees hst hnibble
  rw [h] at hagrees
  rw [pathBits_append hnibble]
  have hfits : (pathTo state).code * 16 + nibble < 2 ^ ((pathTo state).bits + 4) := by
    have := (pathTo_fits hst).1
    rw [Nat.pow_add]
    omega
  exact (isFront_iff (codes_fit _ (codeOf_mem none)).1 hfits).1 hagrees

theorem decodeNibble_some {next : Nat} (hst : state < 256)
    (hnibble : nibble < 16) (h : decodeNibble state nibble = some (next, out)) :
    next < 256 ∧ pathBits state ++ bitsOf 4 nibble = codesOf out ++ pathBits next := by
  have hagrees := decodeNibble_agrees hst hnibble
  rw [h] at hagrees
  rw [pathBits_append hnibble]
  match out with
  | [] =>
    rw [stepAgrees, Bool.and_eq_true, Nat.ble_eq, beq_iff_eq] at hagrees
    refine ⟨Nat.lt_succ_of_le hagrees.1, ?_⟩
    rw [pathBits, hagrees.2]
    rfl
  | [c] =>
    simp only [stepAgrees, Bool.and_eq_true, Nat.ble_eq, beq_iff_eq] at hagrees
    obtain ⟨⟨hnext, hfront⟩, hpath⟩ := hagrees
    refine ⟨Nat.lt_succ_of_le hnext, ?_⟩
    have hfits : (pathTo state).code * 16 + nibble < 2 ^ ((pathTo state).bits + 4) := by
      have := (pathTo_fits hst).1
      rw [Nat.pow_add]
      omega
    obtain ⟨rest, hrest⟩ := (isFront_iff (codes_fit _ (codeOf_mem (some c))).1 hfits).1 hfront
    have hle : (codeOf c.toNat).bits ≤ (pathTo state).bits + 4 := by
      have := congrArg List.length hrest
      rw [length_append, length_toBits, length_toBits] at this
      exact Nat.le.intro this
    have hwidth : (pathTo state).bits + 4 =
        (codeOf c.toNat).bits + ((pathTo state).bits + 4 - (codeOf c.toNat).bits) :=
      (Nat.add_sub_cancel' hle).symm
    have hsplit : toBits ⟨(pathTo state).code * 16 + nibble, (pathTo state).bits + 4⟩ =
        bitsOf (codeOf c.toNat).bits (((pathTo state).code * 16 + nibble) >>>
          ((pathTo state).bits + 4 - (codeOf c.toNat).bits)) ++ pathBits next := by
      rw [pathBits, hpath, toBits, toBits, bitsOf_mod, ← bitsOf_add, ← hwidth]
    have hheads := (append_inj (hrest.trans hsplit) (by rw [length_toBits, length_bitsOf]; rfl)).1
    rw [hsplit, ← hheads, codesOf_cons, codesOf_nil, append_nil]
    rfl
  | _ :: _ :: _ => cases hagrees

/-- EOS is not in a string with its padding. -/
theorem eos_not_front (hwidth : width < 30) : ¬ codeBits none <+: codesOf s ++ ones width := by
  rintro ⟨rest, hrest⟩
  have hread : [none].flatMap codeBits ++ rest = (s.map some).flatMap codeBits ++ ones width := by
    rw [flatMap_singleton]
    exact hrest
  obtain ⟨left, hleft, -⟩ := codeBits_prefixFree.cancel (ones_codeless hwidth) hread
  have hmem : none ∈ s.map some := hleft ▸ mem_cons_self
  obtain ⟨_, _, hnone⟩ := List.mem_map.1 hmem
  cases hnone

/-- Strings that start with the same code words. -/
theorem codesOf_cancel (hwidth : width < 30) (h : codesOf out ++ rest = codesOf s ++ ones width) :
    ∃ t, s = out ++ t ∧ rest = codesOf t ++ ones width := by
  obtain ⟨left, hleft, hrest⟩ := codeBits_prefixFree.cancel (ones_codeless hwidth) h
  obtain ⟨first, t, rfl, hfirst, rfl⟩ := List.map_eq_append_iff.1 hleft
  have hout : first = out := (List.map_injective_iff.2 (Option.some_injective _)) hfirst
  exact ⟨t, by rw [hout], hrest⟩

theorem decodeNibble_reads {next : Nat} (hst : state < 256)
    (hnibble : nibble < 16) (h : decodeNibble state nibble = some (next, out))
    (hwidth : width < 30) : pathBits state ++ (bitsOf 4 nibble ++ rest) = codesOf s ++ ones width ↔
      ∃ t, s = out ++ t ∧ pathBits next ++ rest = codesOf t ++ ones width := by
  rw [← append_assoc, (decodeNibble_some hst hnibble h).2, append_assoc]
  constructor
  · exact codesOf_cancel hwidth
  rintro ⟨t, rfl, hrest⟩
  rw [hrest, codesOf_append, append_assoc]

theorem not_reads_of_none (hst : state < 256) (hnibble : nibble < 16)
    (h : decodeNibble state nibble = none) (rest : Bits) (s : Bytes) (hwidth : width < 30) :
    pathBits state ++ (bitsOf 4 nibble ++ rest) ≠ codesOf s ++ ones width := by
  intro heq
  rw [← append_assoc] at heq
  exact eos_not_front hwidth
    (heq ▸ (decodeNibble_none hst hnibble h).trans (prefix_append _ _))

theorem bitsOfBytes_cons (byte : UInt8) (data : Bytes) : bitsOfBytes (byte :: data) =
    bitsOf 4 (byte.toNat / 16) ++ (bitsOf 4 (byte.toNat % 16) ++ bitsOfBytes data) := by
  have hhigh : byte.toNat / 16 = byte.toNat >>> 4 := (Nat.shiftRight_eq_div_pow _ 4).symm
  have hlow : bitsOf 4 (byte.toNat % 16) = bitsOf 4 byte.toNat := bitsOf_mod 4 _
  rw [hhigh, hlow, ← append_assoc, ← bitsOf_add]
  rfl

/-- An input is accepted where it is code words and then ones. -/
theorem decodeBytes_iff (hst : state < 256) : decodeBytes state data = .ok s ↔
      ∃ width < 30, pathBits state ++ bitsOfBytes data = codesOf s ++ ones width := by
  induction data generalizing state s with
  | nil =>
    rw [decodeBytes, show bitsOfBytes [] = [] from rfl, append_nil]
    constructor
    · intro h
      split at h
      next haccept =>
        cases h
        exact ⟨_, (pathTo_fits hst).2, (accepting_iff_ones hst).1 haccept⟩
      next => cases h
    rintro ⟨width, hwidth, h⟩
    -- no symbol is on the path to a state
    have hnil : s.map some = [] := (pathBits_codeless hst).eq_nil h
    rw [map_eq_nil_iff] at hnil
    subst hnil
    rw [codesOf_nil, nil_append] at h
    have hlen : (pathTo state).bits = width := by
      have := congrArg List.length h
      rwa [pathBits, length_toBits, ones, length_replicate] at this
    rw [if_pos ((accepting_iff_ones hst).2 (hlen ▸ h))]
  | cons byte data ih =>
  have hhigh : byte.toNat / 16 < 16 := by
    have := byte.toNat_lt
    omega
  have hlow : byte.toNat % 16 < 16 := Nat.mod_lt _ (by decide)
  rw [decodeBytes, bitsOfBytes_cons]
  cases hhi : decodeNibble state (byte.toNat / 16) with
  | none =>
    refine iff_of_false nofun ?_
    rintro ⟨width, hwidth, h⟩
    exact not_reads_of_none hst hhigh hhi _ _ hwidth h
  | some result =>
  obtain ⟨mid, hi⟩ := result
  have hmid := (decodeNibble_some hst hhigh hhi).1
  dsimp only
  cases hlo : decodeNibble mid (byte.toNat % 16) with
  | none =>
    refine iff_of_false nofun ?_
    rintro ⟨width, hwidth, h⟩
    obtain ⟨t, -, ht⟩ := (decodeNibble_reads hst hhigh hhi hwidth).1 h
    exact not_reads_of_none hmid hlow hlo _ _ hwidth ht
  | some result =>
  obtain ⟨next, lo⟩ := result
  have hnext := (decodeNibble_some hmid hlow hlo).1
  dsimp only
  constructor
  · intro h
    split at h
    next => cases h
    next out hout =>
      cases h
      obtain ⟨width, hwidth, hrest⟩ := (ih hnext).1 hout
      refine ⟨width, hwidth, ?_⟩
      refine (decodeNibble_reads hst hhigh hhi hwidth).2 ⟨lo ++ out, ?_, ?_⟩
      · rw [append_assoc]
      exact (decodeNibble_reads hmid hlow hlo hwidth).2 ⟨out, rfl, hrest⟩
  rintro ⟨width, hwidth, h⟩
  obtain ⟨t, rfl, ht⟩ := (decodeNibble_reads hst hhigh hhi hwidth).1 h
  obtain ⟨u, rfl, hu⟩ := (decodeNibble_reads hmid hlow hlo hwidth).1 ht
  rw [(ih hnext).2 ⟨width, hwidth, hu⟩]
  exact congrArg Except.ok (append_assoc hi lo u)

theorem decode_iff :
    decode data = .ok s ↔ ∃ width < 30, bitsOfBytes data = codesOf s ++ ones width :=
  decodeBytes_iff (by decide)

/-! ## Writing -/

theorem bitsOf_toUInt8 (value : Nat) : bitsOf 8 (UInt8.ofNat value).toNat = bitsOf 8 value := by
  rw [UInt8.toNat_ofNat']
  exact bitsOf_mod 8 value

theorem drainBytes_spec (buffer bits : Nat) :
    (drainBytes buffer bits).2 < 8 ∧ bitsOf bits buffer =
      bitsOfBytes (drainBytes buffer bits).1 ++ bitsOf (drainBytes buffer bits).2 buffer := by
  fun_induction drainBytes buffer bits with
  | case1 bits out rest hdrain ih =>
    rw [hdrain] at ih
    refine ⟨ih.1, ?_⟩
    have hsplit : bitsOf (bits + 8) buffer = bitsOf 8 (buffer >>> bits) ++ bitsOf bits buffer := by
      rw [Nat.add_comm bits 8, bitsOf_add]
    rw [← bitsOf_toUInt8, ih.2, ← append_assoc] at hsplit
    exact hsplit
  | case2 bits hbits =>
  exact ⟨Nat.lt_of_not_le fun hle => hbits (bits - 8) (Nat.sub_add_cancel hle).symm, rfl⟩

/-- The rest of the buffer is followed by ones up to a whole byte. -/
theorem padding_spec (hbits : bits < 8) :
    bitsOf 8 ((buffer <<< (8 - bits)) ||| (0xFF >>> bits)) = bitsOf bits buffer ++ ones (8 - bits) := by
  have hones : ∀ bits < 8, 0xFF >>> bits = 2 ^ (8 - bits) - 1 := by decide
  have hwidth : bits + (8 - bits) = 8 := Nat.add_sub_cancel' hbits.le
  have hsplit : bitsOf (bits + (8 - bits))
      ((buffer <<< (8 - bits) ||| (2 ^ (8 - bits) - 1)) % 2 ^ 8) =
        bitsOf bits buffer ++ bitsOf (8 - bits) (2 ^ (8 - bits) - 1) :=
    bitsOf_shiftLeft_or hwidth.le (Nat.sub_lt (Nat.two_pow_pos _) Nat.one_pos)
  rw [hwidth, bitsOf_mod, bitsOf_ones] at hsplit
  rw [hones bits hbits, hsplit]
  rfl

variable (input : Bytes)

theorem encodeLoop_spec (hbits : bits < 8) :
    ∃ width < 8, bitsOfBytes (encodeLoop buffer bits input) =
      bitsOf bits buffer ++ codesOf input ++ ones width := by
  induction input generalizing buffer bits with
  | nil =>
    rw [encodeLoop, codesOf_nil, append_nil]
    rcases Nat.eq_zero_or_pos bits with rfl | hpos
    · exact ⟨0, by decide, rfl⟩
    refine ⟨8 - bits, Nat.sub_lt (by decide) hpos, ?_⟩
    rw [if_pos hpos, ← padding_spec hbits, ← bitsOf_toUInt8]
    exact flatMap_singleton _ _
  | cons c input ih =>
  have hfits : (codeOf c.toNat).code < 2 ^ (codeOf c.toNat).bits ∧ (codeOf c.toNat).bits ≤ 30 :=
    codes_fit _ (codeOf_mem (some c))
  have hdrain := drainBytes_spec
    (((buffer <<< (codeOf c.toNat).bits) ||| (codeOf c.toNat).code) % 2 ^ 64)
    (bits + (codeOf c.toNat).bits)
  -- seven bits and a code word fit the buffer
  have hroom : bits + (codeOf c.toNat).bits ≤ 64 :=
    (Nat.add_le_add hbits.le hfits.2).trans (by decide)
  obtain ⟨width, hwidth, hrest⟩ := ih hdrain.1
  refine ⟨width, hwidth, ?_⟩
  have hcodes := hdrain.2
  rw [bitsOf_shiftLeft_or hroom hfits.1] at hcodes
  rw [codesOf_cons, ← append_assoc]
  change _ = bitsOf bits buffer ++ bitsOf (codeOf c.toNat).bits (codeOf c.toNat).code ++ _ ++ _
  rw [hcodes, append_assoc, append_assoc, ← append_assoc (bitsOf _ _), ← hrest,
    ← bitsOfBytes_append]
  rfl

theorem encode_spec :
    ∃ width < 8, bitsOfBytes (encode input) = codesOf input ++ ones width :=
  encodeLoop_spec input (by decide)

theorem length_codesOf :
    (codesOf input).length = (input.map fun c => (codeOf c.toNat).bits).sum := by
  induction input with
  | nil => rfl
  | cons c input ih =>
  rw [codesOf_cons, length_append, ih, codeBits, length_toBits, map_cons, sum_cons]
  rfl

theorem length_encode : (encode input).length = encodedLength input := by
  obtain ⟨width, hwidth, hbits⟩ := encode_spec input
  have hlen := congrArg List.length hbits
  rw [length_bitsOfBytes, length_append, ones, length_replicate, length_codesOf] at hlen
  change _ = ((input.map fun c => (codeOf c.toNat).bits).sum + 7) / 8
  omega

/-- What is written is read back, and its length is the one that was announced. -/
theorem encode_roundTrips (s : Bytes) :
    decode (encode s) = .ok s ∧ (encode s).length = encodedLength s := by
  obtain ⟨width, hwidth, hbits⟩ := encode_spec s
  exact ⟨decode_iff.2 ⟨width, hwidth.trans (by decide), hbits⟩, length_encode s⟩

/-- What is accepted is the encoding of what it is read as, unless a whole byte of ones or more
stands behind the code words: the states for up to twenty-nine ones are accepting too. -/
theorem decode_canonical_iff (b : Bytes) :
    (∀ s, decode b = .ok s → b = encode s) ↔
      ¬ ∃ s width, 8 ≤ width ∧ width < 30 ∧ bitsOfBytes b = codesOf s ++ ones width := by
  have hones {s : Bytes} {width : Nat} (hbits : bitsOfBytes b = codesOf s ++ ones width) :
      8 * b.length = (codesOf s).length + width := by
    have := congrArg List.length hbits
    rwa [length_bitsOfBytes, length_append, ones, length_replicate] at this
  have hencode (s : Bytes) : ∃ padding < 8, bitsOfBytes (encode s) = codesOf s ++ ones padding ∧
      8 * (encode s).length = (codesOf s).length + padding := by
    obtain ⟨padding, hpadding, hbits⟩ := encode_spec s
    refine ⟨padding, hpadding, hbits, ?_⟩
    have := congrArg List.length hbits
    rwa [length_bitsOfBytes, length_append, ones, length_replicate] at this
  constructor
  · rintro hcanonical ⟨s, width, hlong, hwidth, hbits⟩
    obtain ⟨padding, hpadding, -, hlen⟩ := hencode s
    rw [← hcanonical s (decode_iff.2 ⟨width, hwidth, hbits⟩)] at hlen
    have := hones hbits
    omega
  intro hshort s hs
  obtain ⟨width, hwidth, hbits⟩ := decode_iff.1 hs
  have hwidth : width < 8 := Nat.lt_of_not_le fun hlong => hshort ⟨s, width, hlong, hwidth, hbits⟩
  obtain ⟨padding, hpadding, hpadded, hlen⟩ := hencode s
  have hlen' := hones hbits
  have hsame : width = padding := by omega
  exact bitsOfBytes_inj (by rw [hbits, hpadded, hsame])

/-- A byte of ones is read as the empty string. -/
theorem decode_not_canonical : ¬ ∀ b s, decode b = .ok s → b = encode s := by
  intro hcanonical
  have := hcanonical [0xFF] [] (by decide +kernel)
  exact absurd this (by decide)

end Galay.Http2.HpackHuffman
