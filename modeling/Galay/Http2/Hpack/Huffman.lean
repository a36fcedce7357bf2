import Galay.Http2.Base

/-!
# Huffman coding of HPACK string literals

The code table, the 4-bit decoding automaton and its accepting states are those of
`protoc/http2_hpack.cc`, entry by entry; `HpackHuffman.encode` and `HpackHuffman.decode` are
the loops over them.
-/

namespace Galay.Http2

/-- A code word: its value and its number of bits. -/
structure HuffmanCode where
  code : Nat
  bits : Nat
  deriving DecidableEq, Repr

inductive HuffmanDecodeFlag
  | NONE
  | EMIT
  | FAIL
  deriving DecidableEq, Repr

/-- A transition of the decoding automaton on one nibble. -/
structure HuffmanDecodeEntry where
  state : Nat
  flags : HuffmanDecodeFlag
  symbol : Nat
  deriving DecidableEq, Repr

/-! ## The code table (RFC 7541 Appendix B) -/

namespace HpackHuffman


/-- Code words of the symbols `0` to `255`, then of EOS. -/
def kHuffmanCodes : List HuffmanCode := List.map (fun (code, bits) => ⟨code, bits⟩) [
  (0x1ff8, 13), (0x7fffd8, 23), (0xfffffe2, 28), (0xfffffe3, 28), (0xfffffe4, 28), (0xfffffe5, 28),
  (0xfffffe6, 28), (0xfffffe7, 28), (0xfffffe8, 28), (0xffffea, 24), (0x3ffffffc, 30),
  (0xfffffe9, 28), (0xfffffea, 28), (0x3ffffffd, 30), (0xfffffeb, 28), (0xfffffec, 28),
  (0xfffffed, 28), (0xfffffee, 28), (0xfffffef, 28), (0xffffff0, 28), (0xffffff1, 28),
  (0xffffff2, 28), (0x3ffffffe, 30), (0xffffff3, 28), (0xffffff4, 28), (0xffffff5, 28),
  (0xffffff6, 28), (0xffffff7, 28), (0xffffff8, 28), (0xffffff9, 28), (0xffffffa, 28),
  (0xffffffb, 28), (0x14, 6), (0x3f8, 10), (0x3f9, 10), (0xffa, 12), (0x1ff9, 13), (0x15, 6),
  (0xf8, 8), (0x7fa, 11), (0x3fa, 10), (0x3fb, 10), (0xf9, 8), (0x7fb, 11), (0xfa, 8), (0x16, 6),
  (0x17, 6), (0x18, 6), (0x0, 5), (0x1, 5), (0x2, 5), (0x19, 6), (0x1a, 6), (0x1b, 6), (0x1c, 6),
  (0x1d, 6), (0x1e, 6), (0x1f, 6), (0x5c, 7), (0xfb, 8), (0x7ffc, 15), (0x20, 6), (0xffb, 12),
  (0x3fc, 10), (0x1ffa, 13), (0x21, 6), (0x5d, 7), (0x5e, 7), (0x5f, 7), (0x60, 7), (0x61, 7),
  (0x62, 7), (0x63, 7), (0x64, 7), (0x65, 7), (0x66, 7), (0x67, 7), (0x68, 7), (0x69, 7), (0x6a, 7),
  (0x6b, 7), (0x6c, 7), (0x6d, 7), (0x6e, 7), (0x6f, 7), (0x70, 7), (0x71, 7), (0x72, 7), (0xfc, 8),
  (0x73, 7), (0xfd, 8), (0x1ffb, 13), (0x7fff0, 19), (0x1ffc, 13), (0x3ffc, 14), (0x22, 6),
  (0x7ffd, 15), (0x3, 5), (0x23, 6), (0x4, 5), (0x24, 6), (0x5, 5), (0x25, 6), (0x26, 6), (0x27, 6),
  (0x6, 5), (0x74, 7), (0x75, 7), (0x28, 6), (0x29, 6), (0x2a, 6), (0x7, 5), (0x2b, 6), (0x76, 7),
  (0x2c, 6), (0x8, 5), (0x9, 5), (0x2d, 6), (0x77, 7), (0x78, 7), (0x79, 7), (0x7a, 7), (0x7b, 7),
  (0x7ffe, 15), (0x7fc, 11), (0x3ffd, 14), (0x1ffd, 13), (0xffffffc, 28), (0xfffe6, 20),
  (0x3fffd2, 22), (0xfffe7, 20), (0xfffe8, 20), (0x3fffd3, 22), (0x3fffd4, 22), (0x3fffd5, 22),
  (0x7fffd9, 23), (0x3fffd6, 22), (0x7fffda, 23), (0x7fffdb, 23), (0x7fffdc, 23), (0x7fffdd, 23),
  (0x7fffde, 23), (0xffffeb, 24), (0x7fffdf, 23), (0xffffec, 24), (0xffffed, 24), (0x3fffd7, 22),
  (0x7fffe0, 23), (0xffffee, 24), (0x7fffe1, 23), (0x7fffe2, 23), (0x7fffe3, 23), (0x7fffe4, 23),
  (0x1fffdc, 21), (0x3fffd8, 22), (0x7fffe5, 23), (0x3fffd9, 22), (0x7fffe6, 23), (0x7fffe7, 23),
  (0xffffef, 24), (0x3fffda, 22), (0x1fffdd, 21), (0xfffe9, 20), (0x3fffdb, 22), (0x3fffdc, 22),
  (0x7fffe8, 23), (0x7fffe9, 23), (0x1fffde, 21), (0x7fffea, 23), (0x3fffdd, 22), (0x3fffde, 22),
  (0xfffff0, 24), (0x1fffdf, 21), (0x3fffdf, 22), (0x7fffeb, 23), (0x7fffec, 23), (0x1fffe0, 21),
  (0x1fffe1, 21), (0x3fffe0, 22), (0x1fffe2, 21), (0x7fffed, 23), (0x3fffe1, 22), (0x7fffee, 23),
  (0x7fffef, 23), (0xfffea, 20), (0x3fffe2, 22), (0x3fffe3, 22), (0x3fffe4, 22), (0x7ffff0, 23),
  (0x3fffe5, 22), (0x3fffe6, 22), (0x7ffff1, 23), (0x3ffffe0, 26), (0x3ffffe1, 26), (0xfffeb, 20),
  (0x7fff1, 19), (0x3fffe7, 22), (0x7ffff2, 23), (0x3fffe8, 22), (0x1ffffec, 25), (0x3ffffe2, 26),
  (0x3ffffe3, 26), (0x3ffffe4, 26), (0x7ffffde, 27), (0x7ffffdf, 27), (0x3ffffe5, 26),
  (0xfffff1, 24), (0x1ffffed, 25), (0x7fff2, 19), (0x1fffe3, 21), (0x3ffffe6, 26), (0x7ffffe0, 27),
  (0x7ffffe1, 27), (0x3ffffe7, 26), (0x7ffffe2, 27), (0xfffff2, 24), (0x1fffe4, 21), (0x1fffe5, 21),
  (0x3ffffe8, 26), (0x3ffffe9, 26), (0xffffffd, 28), (0x7ffffe3, 27), (0x7ffffe4, 27),
  (0x7ffffe5, 27), (0xfffec, 20), (0xfffff3, 24), (0xfffed, 20), (0x1fffe6, 21), (0x3fffe9, 22),
  (0x1fffe7, 21), (0x1fffe8, 21), (0x7ffff3, 23), (0x3fffea, 22), (0x3fffeb, 22), (0x1ffffee, 25),
  (0x1ffffef, 25), (0xfffff4, 24), (0xfffff5, 24), (0x3ffffea, 26), (0x7ffff4, 23), (0x3ffffeb, 26),
  (0x7ffffe6, 27), (0x3ffffec, 26), (0x3ffffed, 26), (0x7ffffe7, 27), (0x7ffffe8, 27),
  (0x7ffffe9, 27), (0x7ffffea, 27), (0x7ffffeb, 27), (0xffffffe, 28), (0x7ffffec, 27),
  (0x7ffffed, 27), (0x7ffffee, 27), (0x7ffffef, 27), (0x7fffff0, 27), (0x3ffffee, 26),
  (0x3fffffff, 30)]

/-! ## The decoding automaton -/

/-- Successive states, without a symbol. -/
private def n (state count : Nat) : List HuffmanDecodeEntry :=
  (List.range' state count).map fun state => ⟨state, .NONE, 0⟩

/-- Each symbol with each of the states that follow. -/
private def emit (states symbols : List Nat) : List HuffmanDecodeEntry :=
  symbols.flatMap fun symbol => states.map fun state => ⟨state, .EMIT, symbol⟩

/-! The half byte ends with its symbol, or one, two or three bits behind it. -/

private def e0 : List Nat → List HuffmanDecodeEntry := emit [0]
private def e1 : List Nat → List HuffmanDecodeEntry := emit [29, 30]
private def e2 : List Nat → List HuffmanDecodeEntry := emit [25, 26, 27, 28]
private def e3 : List Nat → List HuffmanDecodeEntry := emit [17, 18, 19, 20, 21, 22, 23, 24]

private def f : HuffmanDecodeEntry := ⟨0, .FAIL, 0⟩

private def states0 : List (List HuffmanDecodeEntry) := [n 1 16, e3 [48, 49], e3 [50, 97],
  e3 [99, 101], e3 [105, 111], e3 [115, 116], e2 [32, 37, 45, 46], e2 [47, 51, 52, 53],
  e2 [54, 55, 56, 57], e2 [61, 65, 95, 98], e2 [100, 102, 103, 104], e2 [108, 109, 110, 112],
  e2 [114, 117] ++ e1 [58, 66, 67, 68], e1 [69, 70, 71, 72, 73, 74, 75, 76],
  e1 [77, 78, 79, 80, 81, 82, 83, 84], e1 [85, 86, 87, 89, 106, 107, 113, 118],
  e1 [119, 120, 121, 122] ++ e0 [38, 42, 44, 59, 88, 90] ++ n 31 2, e2 [48, 49, 50, 97],
  e2 [99, 101, 105, 111], e2 [115, 116] ++ e1 [32, 37, 45, 46], e1 [47, 51, 52, 53, 54, 55, 56, 57],
  e1 [61, 65, 95, 98, 100, 102, 103, 104], e1 [108, 109, 110, 112, 114, 117] ++ e0 [58, 66, 67, 68],
  e0 [69, 70, 71, 72, 73, 74, 75, 76, 77, 78, 79, 80, 81, 82, 83, 84],
  e0 [85, 86, 87, 89, 106, 107, 113, 118, 119, 120, 121, 122] ++ n 33 4,
  e1 [48, 49, 50, 97, 99, 101, 105, 111],
  e1 [115, 116] ++ e0 [32, 37, 45, 46, 47, 51, 52, 53, 54, 55, 56, 57],
  e0 [61, 65, 95, 98, 100, 102, 103, 104, 108, 109, 110, 112, 114, 117] ++ n 37 2, n 39 16,
  e0 [48, 49, 50, 97, 99, 101, 105, 111, 115, 116] ++ n 55 6, n 61 16, e2 [33, 34, 40, 41]]

private def states32 : List (List HuffmanDecodeEntry) := [
  e2 [63] ++ e1 [39, 43, 124] ++ e0 [35, 62] ++ n 77 4, e3 [38, 42], e3 [44, 59], e3 [88, 90],
  e1 [33, 34, 40, 41, 63] ++ e0 [39, 43, 124] ++ n 81 3, e3 [58, 66], e3 [67, 68], e3 [69, 70],
  e3 [71, 72], e3 [73, 74], e3 [75, 76], e3 [77, 78], e3 [79, 80], e3 [81, 82], e3 [83, 84],
  e3 [85, 86], e3 [87, 89], e3 [106, 107], e3 [113, 118], e3 [119, 120], e3 [121, 122],
  e2 [38, 42, 44, 59], e2 [88, 90] ++ e0 [33, 34, 40, 41, 63] ++ n 84 3, e3 [32, 37], e3 [45, 46],
  e3 [47, 51], e3 [52, 53], e3 [54, 55], e3 [56, 57], e3 [61, 65], e3 [95, 98], e3 [100, 102]]

private def states64 : List (List HuffmanDecodeEntry) := [e3 [103, 104], e3 [108, 109],
  e3 [110, 112], e3 [114, 117], e2 [58, 66, 67, 68], e2 [69, 70, 71, 72], e2 [73, 74, 75, 76],
  e2 [77, 78, 79, 80], e2 [81, 82, 83, 84], e2 [85, 86, 87, 89], e2 [106, 107, 113, 118],
  e2 [119, 120, 121, 122], e1 [38, 42, 44, 59, 88, 90] ++ n 87 4, e3 [0, 36], e3 [64, 91],
  e3 [93, 126], e2 [94, 125] ++ e1 [60, 96, 123] ++ n 91 2, e3 [35, 62], e2 [0, 36, 64, 91],
  e2 [93, 126] ++ e1 [94, 125] ++ e0 [60, 96, 123] ++ n 93 1, e3 [39, 43], e3 [124] ++ e2 [35, 62],
  e1 [0, 36, 64, 91, 93, 126] ++ e0 [94, 125] ++ n 94 2, e3 [33, 34], e3 [40, 41],
  e3 [63] ++ e2 [39, 43], e2 [124] ++ e1 [35, 62] ++ e0 [0, 36, 64, 91, 93, 126] ++ n 96 2,
  e1 [92, 195, 208] ++ e0 [128, 130, 131, 162, 184, 194, 224, 226] ++ n 98 2, n 100 16,
  e0 [92, 195, 208] ++ n 116 13, e3 [60, 96], e3 [123] ++ n 129 8]

private def states96 : List (List HuffmanDecodeEntry) := [e3 [94, 125], e2 [60, 96, 123] ++ n 137 4,
  e3 [153, 161], e3 [167, 172], e3 [176, 177], e3 [179, 209], e3 [216, 217], e3 [227, 229],
  e3 [230] ++ e2 [129, 132], e2 [133, 134, 136, 146], e2 [154, 156, 160, 163],
  e2 [164, 169, 170, 173], e2 [178, 181, 185, 186], e2 [187, 189, 190, 196],
  e2 [198, 228, 232, 233], e1 [1, 135, 137, 138, 139, 140, 141, 143],
  e1 [147, 149, 150, 151, 152, 155, 157, 158], e1 [165, 166, 168, 174, 175, 180, 182, 183],
  e1 [188, 191, 197, 231, 239] ++ e0 [9, 142, 144, 145, 148, 159],
  e0 [171, 206, 215, 225, 236, 237] ++ n 141 10, e3 [128, 130], e3 [131, 162], e3 [184, 194],
  e3 [224, 226], e2 [153, 161, 167, 172], e2 [176, 177, 179, 209], e2 [216, 217, 227, 229],
  e2 [230] ++ e1 [129, 132, 133, 134, 136, 146], e1 [154, 156, 160, 163, 164, 169, 170, 173],
  e1 [178, 181, 185, 186, 187, 189, 190, 196],
  e1 [198, 228, 232, 233] ++ e0 [1, 135, 137, 138, 139, 140, 141, 143],
  e0 [147, 149, 150, 151, 152, 155, 157, 158, 165, 166, 168, 174, 175, 180, 182, 183]]

private def states128 : List (List HuffmanDecodeEntry) := [
  e0 [188, 191, 197, 231, 239] ++ n 151 11, e3 [92, 195], e3 [208] ++ e2 [128, 130],
  e2 [131, 162, 184, 194], e2 [224, 226] ++ e1 [153, 161, 167, 172],
  e1 [176, 177, 179, 209, 216, 217, 227, 229],
  e1 [230] ++ e0 [129, 132, 133, 134, 136, 146, 154, 156, 160, 163, 164, 169, 170, 173],
  e0 [178, 181, 185, 186, 187, 189, 190, 196, 198, 228, 232, 233] ++ n 162 4, n 166 16,
  e2 [92, 195, 208] ++ e1 [128, 130], e1 [131, 162, 184, 194, 224, 226] ++ e0 [153, 161, 167, 172],
  e0 [176, 177, 179, 209, 216, 217, 227, 229, 230] ++ n 182 7, n 189 16, e3 [199, 207],
  e3 [234, 235], e2 [192, 193, 200, 201], e2 [202, 205, 210, 213], e2 [218, 219, 238, 240],
  e2 [242, 243, 255] ++ e1 [203, 204], e1 [211, 212, 214, 221, 222, 223, 241, 244],
  e1 [245, 246, 247, 248, 250, 251, 252, 253],
  e1 [254] ++ e0 [2, 3, 4, 5, 6, 7, 8, 11, 12, 14, 15, 16, 17, 18],
  e0 [19, 20, 21, 23, 24, 25, 26, 27, 28, 29, 30, 31, 127, 220, 249] ++ n 205 1, e3 [9, 142],
  e3 [144, 145], e3 [148, 159], e3 [171, 206], e3 [215, 225], e3 [236, 237],
  e2 [199, 207, 234, 235], e1 [192, 193, 200, 201, 202, 205, 210, 213],
  e1 [218, 219, 238, 240, 242, 243, 255] ++ e0 [203, 204]]

private def states160 : List (List HuffmanDecodeEntry) := [
  e0 [211, 212, 214, 221, 222, 223, 241, 244, 245, 246, 247, 248, 250, 251, 252, 253],
  e0 [254] ++ n 206 15, e3 [1, 135], e3 [137, 138], e3 [139, 140], e3 [141, 143], e3 [147, 149],
  e3 [150, 151], e3 [152, 155], e3 [157, 158], e3 [165, 166], e3 [168, 174], e3 [175, 180],
  e3 [182, 183], e3 [188, 191], e3 [197, 231], e3 [239] ++ e2 [9, 142], e2 [144, 145, 148, 159],
  e2 [171, 206, 215, 225], e2 [236, 237] ++ e1 [199, 207, 234, 235],
  e0 [192, 193, 200, 201, 202, 205, 210, 213, 218, 219, 238, 240, 242, 243, 255] ++ n 221 1,
  n 222 16, e3 [129, 132], e3 [133, 134], e3 [136, 146], e3 [154, 156], e3 [160, 163],
  e3 [164, 169], e3 [170, 173], e3 [178, 181], e3 [185, 186], e3 [187, 189]]

private def states192 : List (List HuffmanDecodeEntry) := [e3 [190, 196], e3 [198, 228],
  e3 [232, 233], e2 [1, 135, 137, 138], e2 [139, 140, 141, 143], e2 [147, 149, 150, 151],
  e2 [152, 155, 157, 158], e2 [165, 166, 168, 174], e2 [175, 180, 182, 183],
  e2 [188, 191, 197, 231], e2 [239] ++ e1 [9, 142, 144, 145, 148, 159],
  e1 [171, 206, 215, 225, 236, 237] ++ e0 [199, 207, 234, 235], n 238 16,
  e2 [10, 13, 22] ++ List.replicate 4 f, e3 [2, 3], e3 [4, 5], e3 [6, 7], e3 [8, 11], e3 [12, 14],
  e3 [15, 16], e3 [17, 18], e3 [19, 20], e3 [21, 23], e3 [24, 25], e3 [26, 27], e3 [28, 29],
  e3 [30, 31], e3 [127, 220], e3 [249] ++ e1 [10, 13, 22] ++ List.replicate 2 f, e3 [203, 204],
  e3 [211, 212], e3 [214, 221]]

private def states224 : List (List HuffmanDecodeEntry) := [e3 [222, 223], e3 [241, 244],
  e3 [245, 246], e3 [247, 248], e3 [250, 251], e3 [252, 253], e3 [254] ++ e2 [2, 3],
  e2 [4, 5, 6, 7], e2 [8, 11, 12, 14], e2 [15, 16, 17, 18], e2 [19, 20, 21, 23],
  e2 [24, 25, 26, 27], e2 [28, 29, 30, 31], e2 [127, 220, 249] ++ e0 [10, 13, 22] ++ [f],
  e3 [192, 193], e3 [200, 201], e3 [202, 205], e3 [210, 213], e3 [218, 219], e3 [238, 240],
  e3 [242, 243], e3 [255] ++ e2 [203, 204], e2 [211, 212, 214, 221], e2 [222, 223, 241, 244],
  e2 [245, 246, 247, 248], e2 [250, 251, 252, 253], e2 [254] ++ e1 [2, 3, 4, 5, 6, 7],
  e1 [8, 11, 12, 14, 15, 16, 17, 18], e1 [19, 20, 21, 23, 24, 25, 26, 27],
  e1 [28, 29, 30, 31, 127, 220, 249] ++ n 254 2, e3 [10, 13], e3 [22] ++ List.replicate 8 f]

/-- The transitions of the states `0` to `255`, one row of sixteen a state. -/
def kHuffmanDecodeTable : List (List HuffmanDecodeEntry) :=
  states0 ++ states32 ++ states64 ++ states96 ++
    states128 ++ states160 ++ states192 ++ states224

/-- The states in which an input may end. -/
def kHuffmanDecodeAccepting : List Nat := [
  0, 16, 24, 28, 30, 32, 36, 54, 76, 80, 83, 86, 90, 92, 93, 95,
  97, 115, 128, 136, 140, 150, 161, 181, 204, 205, 220, 237, 253, 255]

/-! ## Encoding -/

/-- Drain the whole bytes of the bit buffer; also the number of bits that stay in it. -/
def drainBytes (buffer : Nat) : (bitsInBuffer : Nat) → Bytes × Nat
  | bits + 8 =>
    let (out, rest) := drainBytes buffer bits
    (UInt8.ofNat (buffer >>> bits) :: out, rest)
  | bits => ([], bits)

def encodeLoop (buffer bitsInBuffer : Nat) : Bytes → Bytes
  | [] =>
    -- pad with the leading ones of EOS
    if bitsInBuffer > 0 then
      [UInt8.ofNat ((buffer <<< (8 - bitsInBuffer)) ||| (0xFF >>> bitsInBuffer))]
    else []
  | c :: input =>
    let code := kHuffmanCodes.getD c.toNat ⟨0, 0⟩
    let buffer := ((buffer <<< code.bits) ||| code.code) % 2 ^ 64
    let (out, bits) := drainBytes buffer (bitsInBuffer + code.bits)
    out ++ encodeLoop buffer bits input

def encode (input : Bytes) : Bytes := encodeLoop 0 0 input

def encodedLength (input : Bytes) : Nat :=
  ((input.map fun c => (kHuffmanCodes.getD c.toNat ⟨0, 0⟩).bits).sum + 7) / 8

/-! ## Decoding -/

/-- One nibble: the next state and the emitted symbol, if any. -/
def decodeNibble (state nibble : Nat) : Option (Nat × Bytes) :=
  let entry := (kHuffmanDecodeTable.getD state []).getD nibble f
  match entry.flags with
  | .FAIL => none
  | .EMIT => some (entry.state, [UInt8.ofNat entry.symbol])
  | .NONE => some (entry.state, [])

def decodeBytes : Nat → Bytes → Except Http2ErrorCode Bytes
  | state, [] =>
    -- EOS padding: the automaton must rest in an accepting state
    if state ∈ kHuffmanDecodeAccepting then .ok [] else .error .CompressionError
  | state, byte :: rest =>
    match decodeNibble state (byte.toNat / 16) with
    | none => .error .CompressionError
    | some (mid, hi) =>
      match decodeNibble mid (byte.toNat % 16) with
      | none => .error .CompressionError
      | some (next, lo) =>
        match decodeBytes next rest with
        | .error err => .error err
        | .ok out => .ok (hi ++ lo ++ out)

def decode (data : Bytes) : Except Http2ErrorCode Bytes := decodeBytes 0 data

end HpackHuffman

end Galay.Http2
