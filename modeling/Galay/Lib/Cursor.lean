import Galay.Lib.BigEndian

/-!
# Reading from the front of a byte string
-/

namespace Galay.Lib

open List

/-- The next bytes, if there are enough. -/
def readBytes (n : Nat) (bytes : Bytes) : Option (Bytes × Bytes) :=
  if bytes.length < n then none else some (bytes.take n, bytes.drop n)

def readBe (width : Nat) (bytes : Bytes) : Option (Nat × Bytes) :=
  (readBytes width bytes).map fun (word, rest) => (ofBe word, rest)

theorem readBytes_append (hlen : bytes.length = n) (rest : Bytes) :
    readBytes n (bytes ++ rest) = some (bytes, rest) := by
  subst hlen
  rw [readBytes, if_neg (by rw [length_append]; omega), take_left, drop_left]

theorem readBe_append (hn : n < 2 ^ (8 * width)) (rest : Bytes) :
    readBe width (toBe width n ++ rest) = some (n, rest) := by
  rw [readBe, readBytes_append (length_toBe width n), Option.map_some]
  exact congrArg (fun word => some (word, rest)) (ofBe_toBe hn)

/-! ## Reading at a position -/

section Position

variable {data bytes after : Bytes} {pos : Nat}

section

variable (h : data.drop pos = bytes ++ after)
include h

theorem le_of_drop (hne : 0 < bytes.length) :
    pos + bytes.length ≤ data.length := by
  have hlen := congrArg List.length h
  rw [length_drop, length_append] at hlen
  omega

theorem drop_of_drop :
    data.drop (pos + bytes.length) = after := by
  rw [← drop_drop, h, drop_left]

theorem take_of_drop :
    (data.drop pos).take bytes.length = bytes := by
  rw [h, take_left]

end

theorem getElem_of_drop (h : data.drop pos = b :: after) : data[pos]? = some b := by
  rw [← Nat.add_zero pos, ← getElem?_drop, h]
  rfl

end Position

end Galay.Lib
