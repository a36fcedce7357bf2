import Galay.Http.RequestText

/-!
# Escapes in a request target

`convertToUri` does not escape `%`, so that only what has none comes back. A `%` that was in the text
takes the characters behind it for the digits of an escape.
-/

namespace Galay.Http

open List

/-! ## Escapes -/

/-- A digit of an escape, or the `u` of `%u`. -/
def IsEscapeDigit (c : UInt8) : Prop := c = 0x75 ∨ (isHex c).isSome

theorem isHex_upperHexDigit (h : digit < 16) : isHex (upperHexDigit digit) = some digit := by
  have hall : ∀ digit : Fin 16, isHex (upperHexDigit digit) = some digit.val := by decide
  exact hall ⟨digit, h⟩

theorem escapeDigit_ne (h : IsEscapeDigit c) : c ≠ 0x25 ∧ c ≠ 0x3f := by
  constructor
  · rintro rfl
    revert h
    simp [IsEscapeDigit, isHex]
  rintro rfl
  revert h
  simp [IsEscapeDigit, isHex]

/-- A character is escaped by its code, or stays as it is. -/
theorem convertToUriChar_cases (c : UInt8) :
    convertToUriChar c = [0x25, upperHexDigit (c.toNat / 16), upperHexDigit (c.toNat % 16)] ∨
      convertToUriChar c = [c] := by
  rw [convertToUriChar]
  iterate 7
    split
    · rename_i hc
      subst hc
      exact .inl rfl
  split
  · exact .inl rfl
  exact .inr rfl

theorem convertToUriChar_percent : convertToUriChar 0x25 = [0x25] := rfl

theorem convertToUri_cons (c : UInt8) (url : Bytes) :
    convertToUri (c :: url) = convertToUriChar c ++ convertToUri url :=
  flatMap_cons ..

theorem convertToUri_eq_append {tail : Bytes} (hword : ∀ c ∈ word, IsEscapeDigit c)
    (h : convertToUri url = word ++ tail) :
    ∃ rest, url = word ++ rest ∧ convertToUri rest = tail := by
  induction word generalizing url with
  | nil => exact ⟨url, rfl, h⟩
  | cons c word ih =>
  cases url with
  | nil => cases h
  | cons c' url =>
  have hc := escapeDigit_ne (hword c (mem_cons_self ..))
  rw [convertToUri_cons] at h
  rcases convertToUriChar_cases c' with hescape | hself
  · rw [hescape] at h
    exact absurd (List.cons.inj h).1.symm hc.1
  rw [hself] at h
  obtain ⟨rfl, htail⟩ := List.cons.inj h
  obtain ⟨rest, rfl, hrest⟩ := ih (fun c hmem => hword c (mem_cons_of_mem _ hmem)) htail
  exact ⟨rest, rfl, hrest⟩

/-! ## Decoding -/

theorem convertFromUri_nil : convertFromUri false [] = some [] := by
  rw [convertFromUri]

theorem convertFromUri_cons (hc : c ≠ 0x25) (rest : Bytes) :
    convertFromUri false (c :: rest) = (convertFromUri false rest).map (c :: ·) := by
  rw [convertFromUri.eq_def]
  simp only [if_neg hc, Bool.false_eq_true, false_and, if_false]
  cases convertFromUri false rest <;> rfl

theorem fromHexToI_two (c c' : UInt8) (rest : Bytes) :
    fromHexToI (c :: c' :: rest) 2 =
      (isHex c).bind fun high => (isHex c').map fun low => high * 16 + low := by
  simp only [fromHexToI, length_cons, take_succ_cons, take_zero]
  rw [if_neg (by omega)]
  simp only [foldlM_cons, foldlM_nil]
  cases isHex c with
  | none => rfl
  | some high =>
  simp only [Option.map_some, Option.bind_eq_bind, Option.bind_some, Nat.zero_mul, Nat.zero_add]
  cases isHex c' with
  | none => rfl
  | some low => rfl

/-- Both digits of an escape are read. -/
theorem convertFromUri_escape (hc : isHex c = some high)
    (hc' : isHex c' = some low) (rest : Bytes) : convertFromUri false (0x25 :: c :: c' :: rest) =
      (convertFromUri false rest).map (UInt8.ofNat (high * 16 + low) :: ·) := by
  have hu : c ≠ 0x75 := by
    rintro rfl
    cases hc
  rw [convertFromUri.eq_def]
  simp only [if_true, if_neg hu, fromHexToI_two, hc, hc', Option.bind_some, Option.map_some,
    Option.bind_eq_bind, drop_succ_cons, drop_zero]
  cases convertFromUri false rest <;> rfl

/-- A character that is not `%` comes back. -/
theorem convertFromUri_convertToUriChar (hc : c ≠ 0x25) (rest : Bytes) :
    convertFromUri false (convertToUriChar c ++ rest) =
      (convertFromUri false rest).map (c :: ·) := by
  rcases convertToUriChar_cases c with hescape | hself
  · have hlt : c.toNat < 256 := UInt8.toNat_lt c
    have hval : c.toNat / 16 * 16 + c.toNat % 16 = c.toNat := by omega
    have hdecoded := convertFromUri_escape (isHex_upperHexDigit (by omega : c.toNat / 16 < 16))
      (isHex_upperHexDigit (by omega : c.toNat % 16 < 16)) rest
    rw [hval, UInt8.ofNat_toNat] at hdecoded
    rw [hescape]
    exact hdecoded
  rw [hself]
  exact convertFromUri_cons hc rest


theorem isHex_of_foldlM {text : Bytes}
    (h : text.foldlM (fun val c => (isHex c).map (val * 16 + ·)) first = some value) :
    ∀ c ∈ text, (isHex c).isSome := by
  induction text generalizing first with
  | nil => exact nofun
  | cons c text ih =>
  obtain ⟨next, hnext, hrest⟩ := Option.bind_eq_some_iff.1 h
  obtain ⟨digit, hdigit, -⟩ := Option.map_eq_some_iff.1 hnext
  intro c' hmem
  rcases List.mem_cons.1 hmem with rfl | hmem
  · rw [hdigit]
    rfl
  exact ih hrest c' hmem

theorem digits_of_fromHexToI (h : fromHexToI text cnt = some value) :
    cnt ≤ text.length ∧ ∀ c ∈ text.take cnt, IsEscapeDigit c := by
  rw [fromHexToI] at h
  split at h
  · cases h
  exact ⟨by omega, fun c hmem => .inr (isHex_of_foldlM h c hmem)⟩

theorem length_toUtf8 (h : toUtf8 code = some bytes) : 1 ≤ bytes.length ∧ bytes.length ≤ 4 := by
  rw [toUtf8] at h
  repeat' split at h
  all_goals
    first
    | (cases h; done)
    | (cases h; simp only [length_cons, length_nil]; omega)

/-- An escape gives fewer characters than it has digits. -/
theorem convertFromUri_percent {rest : Bytes}
    (h : convertFromUri false (0x25 :: rest) = some decoded) :
    ∃ word tail out decoded', rest = word ++ tail ∧ (∀ c ∈ word, IsEscapeDigit c) ∧ out ≠ [] ∧
      out.length < word.length ∧ convertFromUri false tail = some decoded' ∧
      decoded = out ++ decoded' := by
  cases rest with
  | nil =>
    rw [convertFromUri.eq_def] at h
    cases h
  | cons c rest =>
  rw [convertFromUri.eq_def] at h
  simp only [if_true] at h
  split at h
  · rename_i hu
    obtain ⟨value, hval, h⟩ := Option.bind_eq_some_iff.1 h
    obtain ⟨out, hout, h⟩ := Option.bind_eq_some_iff.1 h
    obtain ⟨decoded', hdecoded, h⟩ := Option.bind_eq_some_iff.1 h
    obtain ⟨hlen, hdigits⟩ := digits_of_fromHexToI hval
    obtain ⟨hpos, hle⟩ := length_toUtf8 hout
    cases h
    refine ⟨c :: rest.take 4, rest.drop 4, out, decoded', ?_, ?_, ?_, ?_, hdecoded, rfl⟩
    · rw [cons_append, take_append_drop]
    · intro c' hmem
      rcases List.mem_cons.1 hmem with rfl | hmem
      · exact .inl hu
      exact hdigits c' hmem
    · exact ne_nil_of_length_pos hpos
    rw [length_cons, length_take]
    omega
  obtain ⟨value, hval, h⟩ := Option.bind_eq_some_iff.1 h
  obtain ⟨decoded', hdecoded, h⟩ := Option.bind_eq_some_iff.1 h
  obtain ⟨hlen, hdigits⟩ := digits_of_fromHexToI hval
  cases h
  refine ⟨(c :: rest).take 2, rest.drop 1, [UInt8.ofNat value], decoded', ?_, hdigits,
    cons_ne_nil _ _, ?_, hdecoded, rfl⟩
  · exact (take_append_drop 2 (c :: rest)).symm
  rw [length_take]
  simp only [length_cons, length_nil]
  simp only [length_cons] at hlen
  omega

variable {url : Bytes}

theorem convertFromUri_ne_nil (hurl : url ≠ []) (h : convertFromUri false url = some decoded) :
    decoded ≠ [] := by
  cases url with
  | nil => exact absurd rfl hurl
  | cons c rest =>
  by_cases hc : c = 0x25
  · subst hc
    obtain ⟨word, tail, out, decoded', -, -, hout, -, -, rfl⟩ := convertFromUri_percent h
    exact append_ne_nil_of_left_ne_nil hout _
  rw [convertFromUri_cons hc] at h
  obtain ⟨decoded', -, rfl⟩ := Option.map_eq_some_iff.1 h
  exact cons_ne_nil _ _

/-! ## Written and read again -/

/-- What is read where a target has been written. -/
def reread (url : Bytes) : Option Bytes := convertFromUri false (convertToUri url)

theorem reread_cons (hc : c ≠ 0x25) (url : Bytes) :
    reread (c :: url) = (reread url).map (c :: ·) := by
  rw [reread, convertToUri_cons]
  exact convertFromUri_convertToUriChar hc _

theorem reread_percent (h : reread (0x25 :: url) = some decoded) :
    ∃ word rest out decoded', url = word ++ rest ∧ (∀ c ∈ word, IsEscapeDigit c) ∧
      out.length < word.length ∧ reread rest = some decoded' ∧ decoded = out ++ decoded' := by
  rw [reread, convertToUri_cons, convertToUriChar_percent] at h
  obtain ⟨word, tail, out, decoded', hword, hdigits, -, hlen, hdecoded, rfl⟩ :=
    convertFromUri_percent h
  obtain ⟨rest, rfl, rfl⟩ := convertToUri_eq_append hdigits hword
  exact ⟨word, rest, out, decoded', rfl, hdigits, hlen, hdecoded, rfl⟩

theorem reread_eq_self (hurl : 0x25 ∉ url) : reread url = some url := by
  induction url with
  | nil => exact convertFromUri_nil
  | cons c url ih =>
  rw [mem_cons, not_or] at hurl
  rw [reread_cons (Ne.symm hurl.1), ih hurl.2]
  rfl

theorem length_reread (h : reread url = some decoded) :
    decoded.length ≤ url.length ∧ (0x25 ∈ url → decoded.length < url.length) := by
  induction hn : url.length using Nat.strongRecOn generalizing url decoded with
  | ind n ih =>
  cases url with
  | nil =>
    cases convertFromUri_nil.symm.trans h
    exact ⟨Nat.zero_le _, nofun⟩
  | cons c url =>
  rw [length_cons] at hn
  by_cases hc : c = 0x25
  · subst hc
    obtain ⟨word, rest, out, decoded', rfl, -, hlen, hdecoded, rfl⟩ := reread_percent h
    rw [length_append] at hn
    obtain ⟨hle, -⟩ := ih rest.length (by omega) hdecoded rfl
    rw [length_append]
    exact ⟨by omega, fun _ => by omega⟩
  rw [reread_cons hc] at h
  obtain ⟨decoded', hdecoded, rfl⟩ := Option.map_eq_some_iff.1 h
  obtain ⟨hle, hlt⟩ := ih url.length (by omega) hdecoded rfl
  rw [length_cons]
  refine ⟨by omega, fun hmem => ?_⟩
  have := hlt ((List.mem_cons.1 hmem).resolve_left (Ne.symm hc))
  omega

/-- A word without a separator that is in front of the same list is in front of its first part. -/
theorem append_eq_append_cons {tail back : Bytes}
    (hword : separator ∉ word) (h : word ++ tail = front ++ separator :: back) :
    ∃ rest, front = word ++ rest ∧ tail = rest ++ separator :: back := by
  rcases List.append_eq_append_iff.1 h with ⟨rest, hfront, htail⟩ | ⟨rest, hword', htail⟩
  · exact ⟨rest, hfront, htail⟩
  cases rest with
  | nil =>
    rw [append_nil] at hword'
    exact ⟨[], by rw [hword', append_nil], htail.symm⟩
  | cons c rest =>
  obtain ⟨rfl, -⟩ := List.cons.inj htail
  rw [hword'] at hword
  exact absurd (mem_append_right _ (mem_cons_self ..)) hword

/-- Nothing that is behind a `?` comes back as nothing. What the reader is ahead by are the digits of
escapes, and the `?` is none of them. -/
theorem reread_ne_front {front back queue : Bytes}
    (hqueue : ∀ c ∈ queue, c = 0x25 ∨ IsEscapeDigit c) :
    reread (front ++ 0x3f :: back) ≠ some (queue ++ front) := by
  intro h
  induction hn : front.length using Nat.strongRecOn generalizing front queue with
  | ind n ih =>
  cases front with
  | nil =>
    rw [nil_append, reread_cons (by decide), append_nil] at h
    obtain ⟨decoded, -, rfl⟩ := Option.map_eq_some_iff.1 h
    rcases hqueue 0x3f (mem_cons_self ..) with hpercent | hdigit
    · cases hpercent
    exact (escapeDigit_ne hdigit).2 rfl
  | cons c front =>
  rw [length_cons] at hn
  rw [cons_append] at h
  by_cases hc : c = 0x25
  · subst hc
    obtain ⟨word, rest, out, decoded, hword, hdigits, hlen, hdecoded, heq⟩ :=
      reread_percent h
    have hseparator : (0x3f : UInt8) ∉ word :=
      fun hmem => (escapeDigit_ne (hdigits _ hmem)).2 rfl
    obtain ⟨front', rfl, rfl⟩ := append_eq_append_cons hseparator hword.symm
    rw [length_append] at hn
    -- What was read of the escape and not yet given back joins the queue.
    have hnext : reread (front' ++ 0x3f :: back) =
        some ((queue ++ 0x25 :: word).drop out.length ++ front') := by
      rw [hdecoded]
      have hdrop := congrArg (List.drop out.length) heq
      rw [drop_left] at hdrop
      rw [← hdrop, ← drop_append_of_le_length]
      · simp only [append_assoc, cons_append]
      rw [length_append, length_cons]
      omega
    refine ih front'.length (by omega) ?_ hnext rfl
    intro c hmem
    rcases List.mem_append.1 (mem_of_mem_drop hmem) with hmem | hmem
    · exact hqueue c hmem
    rcases List.mem_cons.1 hmem with rfl | hmem
    · exact .inl rfl
    exact .inr (hdigits c hmem)
  rw [reread_cons hc] at h
  obtain ⟨decoded, hdecoded, heq⟩ := Option.map_eq_some_iff.1 h
  cases queue with
  | nil =>
    obtain ⟨-, heq⟩ := List.cons.inj heq
    rw [heq] at hdecoded
    exact ih front.length (by omega) hqueue hdecoded rfl
  | cons q queue =>
  obtain ⟨rfl, hrest⟩ := List.cons.inj heq
  have hnext : reread (front ++ 0x3f :: back) = some ((queue ++ [c]) ++ front) := by
    rw [hdecoded, hrest, append_assoc]
    rfl
  refine ih front.length (by omega) ?_ hnext rfl
  intro c' hmem
  rcases List.mem_append.1 hmem with hmem | hmem
  · exact hqueue c' (mem_cons_of_mem _ hmem)
  rw [List.mem_singleton.1 hmem]
  exact hqueue c (mem_cons_self ..)

end Galay.Http
