import Mathlib.Data.List.Basic

/-!
# Windows on a circular list

A window of a list read as a circle starts at a position and runs past the end back to the
front. The lemmas of this file say how a window splits at the end of the list and how it moves
when its first elements are given up.
-/

namespace Galay.Lib

open List

variable {α : Type*} {buf : List α} {start n a : Nat}

/-- The `n` elements of the circle `buf` from position `start` on. -/
def window (buf : List α) (start n : Nat) : List α := ((buf ++ buf).drop start).take n

theorem length_window (hstart : start ≤ buf.length) (hn : n ≤ buf.length) :
    (window buf start n).length = n := by
  simp only [window, length_take, length_drop, length_append]
  omega

/-- The part up to the end of the list, then the part from its front. -/
theorem window_eq_append (hstart : start ≤ buf.length) :
    window buf start n =
      (buf.drop start).take n ++ buf.take (n - (buf.length - start)) := by
  rw [window, drop_append_of_le_length hstart, take_append, length_drop]

theorem window_zero : window buf start 0 = [] := by
  simp [window]

/-- Giving up the first `a` elements moves the start by `a`, around the end if need be. -/
theorem window_advance (hstart : start < buf.length) (hn : n ≤ buf.length) (ha : a ≤ n) :
    window buf ((start + a) % buf.length) (n - a) = (window buf start n).drop a := by
  rw [window, window, drop_take, drop_drop]
  rcases Nat.lt_or_ge (start + a) buf.length with hlt | hge
  · rw [Nat.mod_eq_of_lt hlt]
  -- The start passes the end: what is left lies in the second copy.
  have hmod : (start + a) % buf.length = start + a - buf.length := by
    rw [Nat.mod_eq_sub_mod hge, Nat.mod_eq_of_lt (by omega)]
  have hfront : start + a - buf.length ≤ buf.length := by omega
  have hsecond : (buf ++ buf).drop (start + a) = buf.drop (start + a - buf.length) := by
    rw [drop_append, drop_eq_nil_of_le hge, nil_append]
  rw [hmod, hsecond, drop_append_of_le_length hfront,
    take_append_of_le_length (by rw [length_drop]; omega)]

theorem mod_of_lt_two_mul (h : x < 2 * m) : x % m = if x < m then x else x - m := by
  split
  · next hlt => exact Nat.mod_eq_of_lt hlt
  next hge => rw [Nat.mod_eq_sub_mod (by omega), Nat.mod_eq_of_lt (by omega)]

theorem getElem_window (hn : n ≤ buf.length) (hi : i < n)
    (hi' : i < (window buf start n).length) (hmod : (start + i) % buf.length = k)
    (hstart : start < buf.length) (hk : k < buf.length) : (window buf start n)[i] = buf[k] := by
  have hcase := mod_of_lt_two_mul (x := start + i) (m := buf.length) (by omega)
  simp only [window, getElem_take, getElem_drop, getElem_append]
  split
  · next hlt =>
    have hsame : k = start + i := by rw [← hmod, hcase, if_pos hlt]
    simp only [hsame]
  next hge =>
  have hsame : k = start + i - buf.length := by rw [← hmod, hcase, if_neg hge]
  simp only [hsame]

/-- The circle with `data` written over it from position `start` on. -/
def overwrite (buf : List α) (start : Nat) (data : List α) : List α :=
  buf.mapIdx fun i symbol => data.getD ((i + buf.length - start) % buf.length) symbol

@[simp] theorem length_overwrite (buf : List α) (start : Nat) (data : List α) :
    (overwrite buf start data).length = buf.length := by
  rw [overwrite, length_mapIdx]

variable {data : List α}

theorem getElem_overwrite (hi : i < buf.length) (hi' : i < (overwrite buf start data).length) :
    (overwrite buf start data)[i] = data.getD ((i + buf.length - start) % buf.length) buf[i] := by
  simp only [overwrite, getElem_mapIdx]

/-- What is written behind a window makes it longer. -/
theorem window_overwrite (hstart : start < buf.length) (hn : n + data.length ≤ buf.length) :
    window (overwrite buf ((start + n) % buf.length) data) start (n + data.length) =
      window buf start n ++ data := by
  have hlen := length_overwrite buf ((start + n) % buf.length) data
  have hwin : (window buf start n).length = n := length_window (by omega) (by omega)
  refine ext_getElem ?_ fun i hi hi' => ?_
  · rw [length_window (by omega) (by omega), length_append, hwin]
  rw [length_append, hwin] at hi'
  have hpos : (start + i) % buf.length < buf.length := Nat.mod_lt _ (by omega)
  rw [getElem_window (by omega) hi' hi (by rw [hlen]) (by omega) (by omega), getElem_overwrite hpos]
  -- How far the position lies behind the first one written.
  have hfar : ((start + i) % buf.length + buf.length - (start + n) % buf.length) % buf.length =
      if i < n then i + buf.length - n else i - n := by
    have hi₁ := mod_of_lt_two_mul (x := start + i) (m := buf.length) (by omega)
    have hi₂ := mod_of_lt_two_mul (x := start + n) (m := buf.length) (by omega)
    rw [mod_of_lt_two_mul (by rw [hi₁, hi₂]; split <;> split <;> omega), hi₁, hi₂]
    split_ifs <;> omega
  rw [hfar]
  by_cases hold : i < n
  · rw [if_pos hold, getD_eq_getElem?_getD, getElem?_eq_none (by omega),
      Option.getD_none, getElem_append_left (by rw [hwin]; exact hold)]
    exact (getElem_window (by omega) hold (by rw [hwin]; exact hold) rfl hstart hpos).symm
  rw [if_neg hold, getD_eq_getElem?_getD, getElem?_eq_getElem (by omega),
    Option.getD_some, getElem_append_right (by rw [hwin]; omega)]
  simp only [hwin]

theorem overwrite_nil (buf : List α) (start : Nat) : overwrite buf start [] = buf := by
  refine ext_getElem (length_overwrite _ _ _) fun i hi hi' => ?_
  rw [getElem_overwrite hi', getD_nil]

/-! ## Writing in pieces -/

/-- A list with `data` put over it at a position from which it fits. -/
def splice (buf : List α) (start : Nat) (data : List α) : List α :=
  buf.take start ++ data ++ buf.drop (start + data.length)

section

variable (h : start + data.length ≤ buf.length)

include h

theorem length_splice :
    (splice buf start data).length = buf.length := by
  simp only [splice, length_append, length_take, length_drop]
  omega

theorem getElem_splice (hi : i < buf.length)
    (hi' : i < (splice buf start data).length) : (splice buf start data)[i] =
      if start ≤ i then data.getD (i - start) buf[i] else buf[i] := by
  have htake : (buf.take start).length = start := by
    rw [length_take]
    omega
  simp only [splice, append_assoc]
  split
  · next hge =>
    rw [getElem_append_right (by omega)]
    simp only [htake]
    by_cases hin : i - start < data.length
    · rw [getElem_append_left hin, getD_eq_getElem?_getD, getElem?_eq_getElem hin, Option.getD_some]
    rw [getElem_append_right (by omega), getElem_drop, getD_eq_getElem?_getD,
      getElem?_eq_none (by omega), Option.getD_none]
    congr 1
    omega
  next hlt => rw [getElem_append_left (by omega), getElem_take]

/-- What fits before the end of the list is written in one piece. -/
theorem overwrite_eq_splice :
    overwrite buf start data = splice buf start data := by
  refine ext_getElem ?_ fun i hi hi' => ?_
  · rw [length_overwrite, length_splice h]
  rw [length_overwrite] at hi
  have hfar := mod_of_lt_two_mul (x := i + buf.length - start) (m := buf.length) (by omega)
  rw [getElem_overwrite hi, getElem_splice h hi, hfar]
  by_cases hge : start ≤ i
  · rw [if_pos hge, if_neg (by omega), show i + buf.length - start - buf.length = i - start by omega]
  rw [if_neg hge, if_pos (by omega), getD_eq_getElem?_getD,
    getElem?_eq_none (by omega), Option.getD_none]

end

/-- Otherwise there is a second piece, which is written at the front. -/
theorem overwrite_eq_splice_splice (hstart : start < buf.length) (h : data.length ≤ buf.length) :
    overwrite buf start data =
      splice (splice buf start (data.take (buf.length - start))) 0 (data.drop (buf.length - start)) := by
  have hfirst : start + (data.take (buf.length - start)).length ≤ buf.length := by
    rw [length_take]
    omega
  have hlen := length_splice hfirst
  have hsecond : 0 + (data.drop (buf.length - start)).length ≤
      (splice buf start (data.take (buf.length - start))).length := by
    rw [length_drop, hlen]
    omega
  refine ext_getElem ?_ fun i hi hi' => ?_
  · rw [length_overwrite, length_splice hsecond, hlen]
  rw [length_overwrite] at hi
  have hfar := mod_of_lt_two_mul (x := i + buf.length - start) (m := buf.length) (by omega)
  rw [getElem_overwrite hi, getElem_splice hsecond (by rw [hlen]; exact hi) hi',
    if_pos (Nat.zero_le i), getElem_splice hfirst hi, hfar]
  simp only [getD_eq_getElem?_getD, getElem?_drop, getElem?_take]
  by_cases hge : start ≤ i
  · rw [if_pos hge, if_neg (by omega), if_pos (by omega),
      show i + buf.length - start - buf.length = i - start by omega,
      getElem?_eq_none (l := data) (i := buf.length - start + (i - 0)) (by omega),
      Option.getD_none]
  rw [if_neg hge, if_pos (by omega),
    show buf.length - start + (i - 0) = i + buf.length - start by omega]

/-! ## Neighbouring windows -/

theorem take_window (h : m ≤ n) : (window buf start n).take m = window buf start m := by
  rw [window, window, take_take, Nat.min_eq_left h]

theorem window_append {m : Nat} (hstart : start < buf.length) (h : m + n ≤ buf.length) :
    window buf start m ++ window buf ((start + m) % buf.length) n = window buf start (m + n) := by
  have hnext := window_advance hstart h (Nat.le_add_right m n)
  rw [Nat.add_sub_cancel_left] at hnext
  rw [hnext, ← take_window (Nat.le_add_right m n), take_append_drop]

/-- The elements behind a window, when something is written over them: it comes first, and the window
is left as it is. -/
theorem window_overwrite_behind (hstart : start < buf.length) (hdata : data.length ≤ m)
    (hn : n + m ≤ buf.length) : let buf' := overwrite buf ((start + n) % buf.length) data
    window buf' start n = window buf start n ∧
      data <+: window buf' ((start + n) % buf.length) m := by
  intro buf'
  have hlen : buf'.length = buf.length := length_overwrite ..
  have hwin := @length_window _ buf start n (by omega) (by omega)
  have hwritten := window_overwrite hstart (show n + data.length ≤ buf.length by omega)
  have hkept : window buf' start n = window buf start n := by
    rw [← take_window (Nat.le_add_right n data.length), hwritten]
    exact take_left' hwin
  have hsplit := @window_append _ buf' start m n (by omega) (by omega)
  rw [hlen, hkept] at hsplit
  refine ⟨hkept, ?_⟩
  have htake : window buf' start (n + data.length) =
      (window buf start n ++ window buf' ((start + n) % buf.length) m).take (n + data.length) := by
    rw [hsplit, take_window (by omega)]
  rw [hwritten] at htake
  have hprefix := take_prefix (n + data.length)
    (window buf start n ++ window buf' ((start + n) % buf.length) m)
  rw [← htake] at hprefix
  exact (prefix_append_right_inj _).1 hprefix

/-! ## One element at a time -/

theorem window_succ (hstart : start < buf.length) (hn : n < buf.length) :
    window buf start (n + 1) = buf[start] :: window buf ((start + 1) % buf.length) n := by
  have hsplit := @window_append _ buf start n 1 hstart (by omega)
  rw [Nat.add_comm 1 n] at hsplit
  rw [← hsplit]
  rw [window_eq_append (Nat.le_of_lt hstart), drop_eq_getElem_cons hstart,
    show 1 - (buf.length - start) = 0 by omega, take_succ_cons, take_zero, take_zero]
  rfl

/-- A window does not see the element before it, if it does not go all the way around. -/
theorem window_set (hstart : start < buf.length) (hn : n < buf.length) :
    window (buf.set start x) ((start + 1) % buf.length) n =
      window buf ((start + 1) % buf.length) n := by
  have hlen : (buf.set start x).length = buf.length := length_set
  have hnext : (start + 1) % buf.length < buf.length := Nat.mod_lt _ (by omega)
  have hone := mod_of_lt_two_mul (x := start + 1) (m := buf.length) (by omega)
  refine ext_getElem ?_ fun i hi hi' => ?_
  · rw [length_window (by omega) (by omega), length_window (by omega) (by omega)]
  have hin : i < n := by rwa [length_window (by omega) (by omega)] at hi'
  have hpos : ((start + 1) % buf.length + i) % buf.length < buf.length := Nat.mod_lt _ (by omega)
  rw [getElem_window (by omega) hin hi (by rw [hlen]) (by omega) (by omega),
    getElem_window (by omega) hin hi' rfl hnext hpos, getElem_set_of_ne]
  -- The position is `i + 1` behind the start.
  have hi₁ := mod_of_lt_two_mul (x := (start + 1) % buf.length + i) (m := buf.length) (by omega)
  rw [hi₁, hone]
  split_ifs <;> omega

theorem overwrite_cons (hstart : start < buf.length) (hdata : data.length < buf.length) :
    overwrite (buf.set start x) ((start + 1) % buf.length) data = overwrite buf start (x :: data) := by
  have hlen : (buf.set start x).length = buf.length := length_set
  have hone := mod_of_lt_two_mul (x := start + 1) (m := buf.length) (by omega)
  refine ext_getElem ?_ fun i hi hi' => ?_
  · rw [length_overwrite, length_overwrite, hlen]
  rw [length_overwrite] at hi'
  have hfar := mod_of_lt_two_mul (x := i + buf.length - start) (m := buf.length) (by omega)
  have hnear := mod_of_lt_two_mul (x := i + buf.length - (start + 1) % buf.length)
    (m := buf.length) (by rw [hone]; split_ifs <;> omega)
  rw [getElem_overwrite (by omega), getElem_overwrite hi', getElem_set]
  simp only [hlen]
  rw [hnear, hfar, hone]
  rcases eq_or_ne start i with rfl | hne
  · rw [if_pos rfl, show (if start + buf.length - start < buf.length then start + buf.length - start
      else start + buf.length - start - buf.length) = 0 by split_ifs <;> omega, getD_cons_zero,
      getD_eq_getElem?_getD, getElem?_eq_none, Option.getD_none]
    split_ifs <;> omega
  rw [if_neg hne]
  obtain ⟨m, hm⟩ : ∃ m, (if i + buf.length - start < buf.length then i + buf.length - start
      else i + buf.length - start - buf.length) = m + 1 :=
    Nat.exists_eq_succ_of_ne_zero (by split_ifs <;> omega)
  rw [hm, getD_cons_succ]
  congr 1
  split_ifs at hm ⊢ <;> omega

end Galay.Lib
