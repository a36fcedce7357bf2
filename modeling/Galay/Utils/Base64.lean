import Galay.Lib.Bytes

/-!
# Base64 (`galay-utils/encoding/base64.hpp`)

The standard alphabet. The decoder also reads the other alphabet and takes a full stop for padding.
-/

namespace Galay.Utils

/-- The character of a value below 64. -/
def base64Char (value : Nat) : UInt8 :=
  if value < 26 then UInt8.ofNat (0x41 + value)
  else if value < 52 then UInt8.ofNat (0x61 + (value - 26))
  else if value < 62 then UInt8.ofNat (0x30 + (value - 52))
  else if value = 62 then 0x2B
  else 0x2F

def base64Encode : Bytes → Bytes
  | first :: second :: third :: rest =>
    base64Char ((first &&& 0xFC) >>> 2).toNat ::
      base64Char (((first &&& 0x03) <<< 4) + ((second &&& 0xF0) >>> 4)).toNat ::
      base64Char (((second &&& 0x0F) <<< 2) + ((third &&& 0xC0) >>> 6)).toNat ::
      base64Char (third &&& 0x3F).toNat :: base64Encode rest
  | [first, second] =>
    [base64Char ((first &&& 0xFC) >>> 2).toNat,
      base64Char (((first &&& 0x03) <<< 4) + ((second &&& 0xF0) >>> 4)).toNat,
      base64Char ((second &&& 0x0F) <<< 2).toNat, 0x3D]
  | [first] =>
    [base64Char ((first &&& 0xFC) >>> 2).toNat, base64Char ((first &&& 0x03) <<< 4).toNat, 0x3D,
      0x3D]
  | [] => []

/-- The value of a character, of either alphabet. -/
def posOfChar (c : UInt8) : Option UInt8 :=
  if 0x41 ≤ c ∧ c ≤ 0x5A then some (c - 0x41)
  else if 0x61 ≤ c ∧ c ≤ 0x7A then some (c - 0x61 + 26)
  else if 0x30 ≤ c ∧ c ≤ 0x39 then some (c - 0x30 + 52)
  else if c = 0x2B ∨ c = 0x2D then some 62
  else if c = 0x2F ∨ c = 0x5F then some 63
  else none

def isPadding (c : UInt8) : Bool := c = 0x3D ∨ c = 0x2E

/-- What four characters, or fewer at the end, decode to. -/
def decodeChunk : Bytes → Option Bytes
  | [] => some []
  | [_] => none
  | a :: b :: chunk => do
    let first ← posOfChar a
    let second ← posOfChar b
    let head := (first <<< 2) + ((second &&& 0x30) >>> 4)
    match chunk with
    | [] => some [head]
    | c :: chunk =>
      if isPadding c then
        some [head]
      else do
        let third ← posOfChar c
        let next := ((second &&& 0x0F) <<< 4) + ((third &&& 0x3C) >>> 2)
        match chunk with
        | [] => some [head, next]
        | d :: _ =>
          if isPadding d then
            some [head, next]
          else do
            let fourth ← posOfChar d
            some [head, next, ((third &&& 0x03) <<< 6) + fourth]

/-- The chunks of four characters. -/
def decodeChunks (encoded : Bytes) : Option Bytes :=
  if _h : encoded = [] then
    some []
  else do
    let chunk ← decodeChunk (encoded.take 4)
    let rest ← decodeChunks (encoded.drop 4)
    some (chunk ++ rest)
termination_by encoded.length
decreasing_by
  have hpos := List.length_pos_of_ne_nil _h
  rw [List.length_drop]
  omega

/-- A string that cannot be decoded yields the empty one. -/
def base64Decode (encoded : Bytes) : Bytes := (decodeChunks encoded).getD []

def base64CanDecode (encoded : Bytes) : Bool :=
  encoded = [] ∨ encoded.length % 4 ≠ 1 ∧ (decodeChunks encoded).isSome

end Galay.Utils
