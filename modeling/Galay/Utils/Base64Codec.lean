import Galay.Utils.Base64

/-!
# The Base64 codec: both alphabets, line breaks, and what it refuses
-/

namespace Galay.Utils

open List

/-! ## Encoding -/

def base64CharUrl (value : Nat) : UInt8 :=
  if value < 62 then base64Char value else if value = 62 then 0x2D else 0x5F

/-- The character of a value below 64, of `base64_chars[url]`. -/
def base64CharOf (url : Bool) (value : Nat) : UInt8 :=
  if url then base64CharUrl value else base64Char value

def base64EncodeUrl (url : Bool) : Bytes → Bytes
  | first :: second :: third :: rest =>
    base64CharOf url ((first &&& 0xFC) >>> 2).toNat ::
      base64CharOf url (((first &&& 0x03) <<< 4) + ((second &&& 0xF0) >>> 4)).toNat ::
      base64CharOf url (((second &&& 0x0F) <<< 2) + ((third &&& 0xC0) >>> 6)).toNat ::
      base64CharOf url (third &&& 0x3F).toNat :: base64EncodeUrl url rest
  | [first, second] =>
    [base64CharOf url ((first &&& 0xFC) >>> 2).toNat,
      base64CharOf url (((first &&& 0x03) <<< 4) + ((second &&& 0xF0) >>> 4)).toNat,
      base64CharOf url ((second &&& 0x0F) <<< 2).toNat, 0x3D]
  | [first] =>
    [base64CharOf url ((first &&& 0xFC) >>> 2).toNat, base64CharOf url ((first &&& 0x03) <<< 4).toNat,
      0x3D, 0x3D]
  | [] => []

/-- The copying loop of `insert_linebreaks`, over what is left of the string. -/
def copyLines (distance : Nat) (str : Bytes) : Bytes :=
  if _h : str = [] ∨ distance = 0 then str
  else
    str.take distance ++
      if (str.drop distance) = [] then [] else 0x0A :: copyLines distance (str.drop distance)
termination_by str.length
decreasing_by
  obtain ⟨hstr, hdistance⟩ := not_or.1 _h
  have hpos := List.length_pos_of_ne_nil hstr
  rw [List.length_drop]
  omega

def insertLinebreaks (str : Bytes) (distance : Nat) : Bytes :=
  if str = [] ∨ distance = 0 then str
  else if (str.length - 1) / distance = 0 then str
  else copyLines distance str

def base64EncodePem (s : Bytes) : Bytes := insertLinebreaks (base64EncodeUrl false s) 64

def base64EncodeMime (s : Bytes) : Bytes := insertLinebreaks (base64EncodeUrl false s) 76

/-! ## Decoding -/

def isDecodeWhitespace (c : UInt8) : Bool := c = 0x20 ∨ (0x09 ≤ c ∧ c ≤ 0x0D)

/-- The loop that skips white space, with the characters of the chunk and what it has decoded. -/
def decodeSkipping (chunk ret : Bytes) : Bytes → Option Bytes
  | [] => (decodeChunk chunk).map (ret ++ ·)
  | c :: encoded =>
    if isDecodeWhitespace c then decodeSkipping chunk ret encoded
    else if chunk.length + 1 = 4 then
      match decodeChunk (chunk ++ [c]) with
      | none => none
      | some bytes => decodeSkipping [] (ret ++ bytes) encoded
    else decodeSkipping (chunk ++ [c]) ret encoded

/-- `Base64Decode`, where an error exit is `none`. -/
def decodeText (encoded : Bytes) (removeLinebreaks : Bool) : Option Bytes :=
  if encoded = [] then some []
  else if removeLinebreaks then decodeSkipping [] [] encoded else decodeChunks encoded

def canDecodeChunk : Bytes → Bool
  | [] => true
  | [_] => false
  | a :: b :: chunk =>
    if (posOfChar a).isNone || (posOfChar b).isNone then false
    else
      match chunk with
      | [] => true
      | c :: chunk =>
        if !isPadding c then
          if (posOfChar c).isNone then false
          else
            match chunk with
            | [] => true
            | d :: _ => if !isPadding d then (posOfChar d).isSome else true
        else true

/-- The loop over the chunks of four characters. -/
def canDecodeChunks : Bytes → Bool
  | a :: b :: c :: d :: encoded => canDecodeChunk [a, b, c, d] && canDecodeChunks encoded
  | [] => true
  | chunk => canDecodeChunk chunk

def canDecodeSkipping (chunk : Bytes) : Bytes → Bool
  | [] => canDecodeChunk chunk
  | c :: encoded =>
    if isDecodeWhitespace c then canDecodeSkipping chunk encoded
    else if chunk.length + 1 = 4 then
      canDecodeChunk (chunk ++ [c]) && canDecodeSkipping [] encoded
    else canDecodeSkipping (chunk ++ [c]) encoded

def canDecodeText (encoded : Bytes) (removeLinebreaks : Bool) : Bool :=
  if encoded = [] then true
  else if removeLinebreaks then canDecodeSkipping [] encoded
  else encoded.length % 4 != 1 && canDecodeChunks encoded

/-! ## Groups -/

/-- The groups of four characters, the last of which may be shorter. -/
def groups : Bytes → List Bytes
  | a :: b :: c :: d :: encoded => [a, b, c, d] :: groups encoded
  | [] => []
  | chunk => [chunk]

/-- What the decoder takes for a group. -/
inductive Shaped : Bytes → Prop
  | two {a b : UInt8} (ha : (posOfChar a).isSome) (hb : (posOfChar b).isSome) : Shaped [a, b]
  | padded {a b p : UInt8} (rest : Bytes) (ha : (posOfChar a).isSome) (hb : (posOfChar b).isSome)
      (hp : isPadding p) : Shaped (a :: b :: p :: rest)
  | three {a b c : UInt8} (ha : (posOfChar a).isSome) (hb : (posOfChar b).isSome)
      (hc : (posOfChar c).isSome) : Shaped [a, b, c]
  | four {a b c d : UInt8} (rest : Bytes) (ha : (posOfChar a).isSome) (hb : (posOfChar b).isSome)
      (hc : (posOfChar c).isSome) (hd : (posOfChar d).isSome ∨ isPadding d) :
      Shaped (a :: b :: c :: d :: rest)

/-- A character that is neither of an alphabet nor padding. -/
def Foreign (c : UInt8) : Prop := posOfChar c = none ∧ isPadding c = false

/-- A foreign character stands fourth, behind a third that is padding. -/
def Hidden (group : Bytes) : Prop :=
  ∃ a b p d, group = [a, b, p, d] ∧ isPadding p = true ∧ Foreign d

theorem decodeChunk_isSome (chunk : Bytes) : (decodeChunk chunk).isSome = canDecodeChunk chunk := by
  rcases chunk with _ | ⟨a, _ | ⟨b, chunk⟩⟩
  · rfl
  · rfl
  simp only [decodeChunk, canDecodeChunk]
  cases posOfChar a with
  | none => rfl
  | some first =>
  cases posOfChar b with
  | none => rfl
  | some second =>
  cases chunk with
  | nil => rfl
  | cons c chunk =>
  cases hc : isPadding c with
  | true => simp [hc]
  | false =>
  cases hthird : posOfChar c with
  | none => simp [hc, hthird]
  | some third =>
  cases chunk with
  | nil => simp [hc, hthird]
  | cons d chunk =>
  cases hd : isPadding d with
  | true => simp [hc, hthird, hd]
  | false => cases hfourth : posOfChar d <;> simp [hc, hthird, hd, hfourth]

theorem canDecodeChunk_iff (chunk : Bytes) :
    canDecodeChunk chunk = true ↔ chunk = [] ∨ Shaped chunk := by
  constructor
  · intro h
    match chunk with
    | [] => exact .inl rfl
    | [_] => cases h
    | a :: b :: chunk =>
      right
      simp only [canDecodeChunk, Option.isNone_eq_false_iff, Bool.or_eq_true, ite_eq_iff,
        Bool.false_eq_true, and_false, false_or, not_or, Bool.not_eq_true] at h
      obtain ⟨⟨ha, hb⟩, h⟩ := h
      match chunk with
      | [] => exact .two ha hb
      | c :: chunk =>
        cases hc : isPadding c with
        | true => exact .padded chunk ha hb hc
        | false =>
        simp only [hc, Bool.not_false, Option.isNone_eq_false_iff, ite_eq_iff,
          Bool.false_eq_true, and_false, false_or, Bool.not_eq_true, if_true] at h
        obtain ⟨hthird, h⟩ := h
        match chunk with
        | [] => exact .three ha hb hthird
        | d :: rest =>
          refine .four rest ha hb hthird ?_
          cases hd : isPadding d with
          | true => exact .inr rfl
          | false => exact .inl (by simpa [hd] using h)
  rintro (rfl | h)
  · rfl
  cases h with
  | two ha hb => simp [canDecodeChunk, ← Option.not_isSome, ha, hb]
  | padded rest ha hb hp => simp [canDecodeChunk, ← Option.not_isSome, ha, hb, hp]
  | three ha hb hc => simp [canDecodeChunk, ← Option.not_isSome, ha, hb, hc]
  | four rest ha hb hc hd =>
  rcases hd with hd | hd <;> simp [canDecodeChunk, ← Option.not_isSome, ha, hb, hc, hd]

/-! ## The texts that are decoded -/

theorem decodeChunks_append {chunk : Bytes} (h : chunk.length = 4) (encoded : Bytes) :
    decodeChunks (chunk ++ encoded) =
      (decodeChunk chunk).bind fun bytes => (decodeChunks encoded).map (bytes ++ ·) := by
  have hne : chunk ++ encoded ≠ [] := fun hnil => by simp [(List.append_eq_nil_iff.1 hnil).1] at h
  rw [decodeChunks, dif_neg hne, take_left' h, drop_left' h]
  cases decodeChunk chunk with
  | none => rfl
  | some bytes => cases decodeChunks encoded <;> rfl

theorem decodeChunks_last (h : chunk.length < 4) : decodeChunks chunk = decodeChunk chunk := by
  by_cases hnil : chunk = []
  · rw [hnil, decodeChunks, dif_pos rfl]
    rfl
  rw [decodeChunks, dif_neg hnil, take_of_length_le h.le, drop_of_length_le h.le,
    decodeChunks, dif_pos rfl]
  cases decodeChunk chunk with
  | none => rfl
  | some bytes => exact congrArg some (append_nil bytes)

theorem length_lt_of_last {chunk : Bytes}
    (h : ∀ a b c d encoded, chunk = a :: b :: c :: d :: encoded → False) : chunk.length < 4 := by
  match chunk with
  | [] | [_] | [_, _] | [_, _, _] => simp
  | a :: b :: c :: d :: encoded => exact (h a b c d encoded rfl).elim

theorem groups_last {chunk : Bytes} (hnil : chunk = [] → False) (h : chunk.length < 4) :
    groups chunk = [chunk] ∧ canDecodeChunks chunk = canDecodeChunk chunk := by
  match chunk with
  | [] => exact (hnil rfl).elim
  | [_] | [_, _] | [_, _, _] => exact ⟨rfl, rfl⟩
  | _ :: _ :: _ :: _ :: _ => exact absurd h (by simp)

variable (encoded : Bytes)

theorem groups_spec :
    (groups encoded).flatten = encoded ∧ (∀ group ∈ groups encoded, group.length ≤ 4) ∧
      (decodeChunks encoded).isSome = canDecodeChunks encoded ∧
      (canDecodeChunks encoded = true ↔ ∀ group ∈ groups encoded, Shaped group) := by
  induction encoded using groups.induct with
  | case1 a b c d encoded ih =>
    obtain ⟨hflat, hlen, hsome, hshaped⟩ := ih
    refine ⟨congrArg ([a, b, c, d] ++ ·) hflat, ?_, ?_, ?_⟩
    · exact List.forall_mem_cons.2 ⟨Nat.le_refl 4, hlen⟩
    · have happend := @decodeChunks_append [a, b, c, d] rfl encoded
      rw [canDecodeChunks, ← hsome, ← decodeChunk_isSome]
      refine (congrArg Option.isSome happend).trans ?_
      cases decodeChunk [a, b, c, d] with
      | none => rfl
      | some bytes => exact Option.isSome_map
    rw [canDecodeChunks, groups, Bool.and_eq_true, canDecodeChunk_iff, hshaped, forall_mem_cons]
    simp
  | case2 =>
    refine ⟨rfl, nofun, ?_, iff_of_true rfl nofun⟩
    rw [decodeChunks, dif_pos rfl]
    rfl
  | case3 chunk hfour hnil =>
  have hshort := length_lt_of_last hfour
  obtain ⟨hgroups, hcan⟩ := groups_last hnil hshort
  rw [hgroups, hcan, decodeChunks_last hshort, canDecodeChunk_iff]
  refine ⟨append_nil chunk, ?_, decodeChunk_isSome chunk, ?_⟩
  · simpa using hshort.le
  have hne : chunk ≠ [] := hnil
  simp [hne]

theorem decodeSkipping_eq (h : chunk.length < 4) (ret encoded : Bytes) :
    decodeSkipping chunk ret encoded =
      (decodeChunks (chunk ++ encoded.filter (!isDecodeWhitespace ·))).map (ret ++ ·) := by
  induction encoded generalizing chunk ret with
  | nil => rw [decodeSkipping, filter_nil, append_nil, decodeChunks_last h]
  | cons c encoded ih =>
  rw [decodeSkipping]
  cases hspace : isDecodeWhitespace c with
  | true => rw [if_pos rfl, filter_cons_of_neg (by simp [hspace]), ih h]
  | false =>
  have hsplit : chunk ++ (c :: encoded).filter (!isDecodeWhitespace ·) =
      (chunk ++ [c]) ++ encoded.filter (!isDecodeWhitespace ·) := by
    rw [filter_cons_of_pos (by simp [hspace]), append_assoc, singleton_append]
  have hlen : (chunk ++ [c]).length = chunk.length + 1 := by rw [length_append, length_singleton]
  rw [if_neg Bool.false_ne_true, hsplit]
  split
  next hfull =>
    rw [decodeChunks_append (hlen.trans hfull)]
    cases decodeChunk (chunk ++ [c]) with
    | none => rfl
    | some bytes =>
    simp only [Option.bind_some]
    rw [ih (by simp), nil_append, Option.map_map]
    exact congrArg (Option.map · _) (funext fun back => append_assoc ..)
  next hopen => exact ih (by omega) ret

theorem canDecodeSkipping_eq (chunk ret encoded : Bytes) :
    canDecodeSkipping chunk encoded = (decodeSkipping chunk ret encoded).isSome := by
  induction encoded generalizing chunk ret with
  | nil => rw [canDecodeSkipping, decodeSkipping, Option.isSome_map, decodeChunk_isSome]
  | cons c encoded ih =>
  rw [canDecodeSkipping, decodeSkipping]
  split
  · exact ih chunk ret
  split
  · rw [← decodeChunk_isSome, ih [] (ret ++ (decodeChunk (chunk ++ [c])).getD [])]
    cases decodeChunk (chunk ++ [c]) <;> rfl
  exact ih (chunk ++ [c]) ret

/-- The characters that are looked at. -/
def textOf (removeLinebreaks : Bool) : Bytes :=
  if removeLinebreaks then encoded.filter (!isDecodeWhitespace ·) else encoded

theorem decodeText_eq (removeLinebreaks : Bool) :
    decodeText encoded removeLinebreaks = decodeChunks (textOf encoded removeLinebreaks) := by
  have hnil : decodeChunks [] = some [] := by rw [decodeChunks, dif_pos rfl]
  unfold decodeText textOf
  cases encoded with
  | nil => cases removeLinebreaks <;> exact hnil.symm
  | cons c encoded =>
  rw [if_neg (cons_ne_nil _ _)]
  cases removeLinebreaks with
  | true =>
    rw [if_pos rfl, if_pos rfl, decodeSkipping_eq (by simp), nil_append]
    exact Option.map_id'
  | false => rfl

theorem length_mod_of_canDecode (h : canDecodeChunks encoded = true) :
    encoded.length % 4 ≠ 1 := by
  induction encoded using groups.induct with
  | case1 a b c d encoded ih =>
    have hrest := ih (Bool.and_eq_true_iff.1 h).2
    simp only [length_cons]
    omega
  | case2 => exact Nat.zero_ne_one
  | case3 chunk hfour hnil =>
  match chunk with
  | [] => exact (hnil rfl).elim
  | [_] => cases h
  | [_, _] | [_, _, _] => simp
  | a :: b :: c :: d :: encoded => exact (hfour a b c d encoded rfl).elim

theorem canDecodeText_eq (removeLinebreaks : Bool) :
    canDecodeText encoded removeLinebreaks = (decodeText encoded removeLinebreaks).isSome := by
  rw [decodeText_eq]
  unfold canDecodeText textOf
  cases encoded with
  | nil => cases removeLinebreaks <;> exact (groups_spec []).2.2.1.symm
  | cons c encoded =>
  rw [if_neg (cons_ne_nil _ _)]
  cases removeLinebreaks with
  | true =>
    rw [if_pos rfl, if_pos rfl, canDecodeSkipping_eq [] [], decodeSkipping_eq (by simp),
      Option.isSome_map, nil_append]
  | false =>
  rw [if_neg Bool.false_ne_true, if_neg Bool.false_ne_true, (groups_spec _).2.2.1]
  cases hcan : canDecodeChunks (c :: encoded) with
  | false => exact Bool.and_false _
  | true => exact Bool.and_eq_true_iff.2 ⟨bne_iff_ne.2 (length_mod_of_canDecode _ hcan), rfl⟩

variable {encoded}

theorem hidden_of_foreign (hlen : group.length ≤ 4)
    (hgroup : Shaped group) (hmem : c ∈ group) (hc : Foreign c) : Hidden group := by
  have hpos {x : UInt8} (hx : (posOfChar x).isSome) : c ≠ x := by
    rintro rfl
    rw [hc.1] at hx
    cases hx
  have hpad {x : UInt8} (hx : isPadding x = true) : c ≠ x := by
    rintro rfl
    exact Bool.eq_false_iff.1 hc.2 hx
  cases hgroup with
  | two ha hb => simp [hpos ha, hpos hb] at hmem
  | three ha hb hthird => simp [hpos ha, hpos hb, hpos hthird] at hmem
  | padded rest ha hb hp =>
    simp only [mem_cons, hpos ha, hpos hb, hpad hp, false_or] at hmem
    match rest with
    | [] => cases hmem
    | [d] => exact ⟨_, _, _, d, rfl, hp, List.mem_singleton.1 hmem ▸ hc⟩
    | _ :: _ :: _ => exact absurd hlen (by simp)
  | four rest ha hb hthird hd =>
  have hle : rest.length + 4 ≤ 4 := hlen
  have hrest : rest = [] := eq_nil_of_length_eq_zero (by omega)
  subst hrest
  rcases hd with hd | hd
  · simp [hpos ha, hpos hb, hpos hthird, hpos hd] at hmem
  simp [hpos ha, hpos hb, hpos hthird, hpad hd] at hmem

/-! ## What is encoded is decoded -/

theorem sextets (b : UInt8) : ((b &&& 0xFC) >>> 2).toNat = b.toNat / 4 ∧
    ((b &&& 0x03) <<< 4).toNat = b.toNat % 4 * 16 ∧ ((b &&& 0xF0) >>> 4).toNat = b.toNat / 16 ∧
    ((b &&& 0x0F) <<< 2).toNat = b.toNat % 16 * 4 ∧ ((b &&& 0xC0) >>> 6).toNat = b.toNat / 64 ∧
    (b &&& 0x3F).toNat = b.toNat % 64 := by
  have hall : ∀ n : Fin 256, ((UInt8.ofNat n &&& 0xFC) >>> 2).toNat = n / 4 ∧
      ((UInt8.ofNat n &&& 0x03) <<< 4).toNat = n % 4 * 16 ∧
      ((UInt8.ofNat n &&& 0xF0) >>> 4).toNat = n / 16 ∧
      ((UInt8.ofNat n &&& 0x0F) <<< 2).toNat = n % 16 * 4 ∧
      ((UInt8.ofNat n &&& 0xC0) >>> 6).toNat = n / 64 ∧ (UInt8.ofNat n &&& 0x3F).toNat = n % 64 := by
    decide +kernel
  have h := hall ⟨b.toNat, b.toNat_lt⟩
  rwa [UInt8.ofNat_toNat] at h

theorem octets (v : UInt8) : (v <<< 2).toNat = v.toNat * 4 % 256 ∧
    ((v &&& 0x30) >>> 4).toNat = v.toNat / 16 % 4 ∧ ((v &&& 0x0F) <<< 4).toNat = v.toNat % 16 * 16 ∧
    ((v &&& 0x3C) >>> 2).toNat = v.toNat / 4 % 16 ∧ ((v &&& 0x03) <<< 6).toNat = v.toNat % 4 * 64 := by
  have hall : ∀ n : Fin 256, (UInt8.ofNat n <<< 2).toNat = n * 4 % 256 ∧
      ((UInt8.ofNat n &&& 0x30) >>> 4).toNat = n / 16 % 4 ∧
      ((UInt8.ofNat n &&& 0x0F) <<< 4).toNat = n % 16 * 16 ∧
      ((UInt8.ofNat n &&& 0x3C) >>> 2).toNat = n / 4 % 16 ∧
      ((UInt8.ofNat n &&& 0x03) <<< 6).toNat = n % 4 * 64 := by
    decide +kernel
  have h := hall ⟨v.toNat, v.toNat_lt⟩
  rwa [UInt8.ofNat_toNat] at h

theorem base64CharOf_spec (url : Bool) (h : v.toNat < 64) :
    posOfChar (base64CharOf url v.toNat) = some v ∧
      isPadding (base64CharOf url v.toNat) = false := by
  have hall : ∀ url, ∀ n : Fin 64, posOfChar (base64CharOf url n) = some (UInt8.ofNat n) ∧
      isPadding (base64CharOf url n) = false := by
    decide +kernel
  have hn := hall url ⟨v.toNat, h⟩
  rwa [UInt8.ofNat_toNat] at hn

section

variable (url : Bool) (first second third : UInt8)

theorem sextet_head : ((first &&& 0xFC) >>> 2).toNat < 64 := by
  have := (sextets first).1
  have := first.toNat_lt
  omega

theorem sextet_pair : (((first &&& 0x03) <<< 4) + ((second &&& 0xF0) >>> 4)).toNat =
    first.toNat % 4 * 16 + second.toNat / 16 := by
  obtain ⟨-, hlow, -⟩ := sextets first
  obtain ⟨-, -, hhigh, -⟩ := sextets second
  have := second.toNat_lt
  rw [UInt8.toNat_add, hlow, hhigh]
  omega

theorem sextet_next : (((second &&& 0x0F) <<< 2) + ((third &&& 0xC0) >>> 6)).toNat =
    second.toNat % 16 * 4 + third.toNat / 64 := by
  obtain ⟨-, -, -, hlow, -⟩ := sextets second
  obtain ⟨-, -, -, -, hhigh, -⟩ := sextets third
  have := third.toNat_lt
  rw [UInt8.toNat_add, hlow, hhigh]
  omega

/-- The first byte of a group from its first two sextets. -/
theorem octet_head {a b : UInt8} (ha : a.toNat = first.toNat / 4) (hlow : low < 16)
    (hb : b.toNat = first.toNat % 4 * 16 + low) : (a <<< 2) + ((b &&& 0x30) >>> 4) = first := by
  have := first.toNat_lt
  refine UInt8.toNat_inj.1 ?_
  rw [UInt8.toNat_add, (octets a).1, (octets b).2.1]
  omega

theorem octet_next {b c : UInt8} (hb : b.toNat = high * 16 + second.toNat / 16)
    (hlow : low < 4) (hc : c.toNat = second.toNat % 16 * 4 + low) :
    ((b &&& 0x0F) <<< 4) + ((c &&& 0x3C) >>> 2) = second := by
  have := second.toNat_lt
  refine UInt8.toNat_inj.1 ?_
  rw [UInt8.toNat_add, (octets b).2.2.1, (octets c).2.2.2.1]
  omega

theorem octet_last {c : UInt8} (hc : c.toNat = high * 4 + third.toNat / 64)
    (hd : d.toNat = third.toNat % 64) : ((c &&& 0x03) <<< 6) + d = third := by
  have := third.toNat_lt
  refine UInt8.toNat_inj.1 ?_
  rw [UInt8.toNat_add, (octets c).2.2.2.2]
  omega

end

theorem decodeChunks_encode (url : Bool) (s : Bytes) :
    decodeChunks (base64EncodeUrl url s) = some s := by
  induction s using base64EncodeUrl.induct with
  | case1 first second third rest ih =>
    have hsecond := second.toNat_lt
    have hthird := third.toNat_lt
    have ha := base64CharOf_spec url (sextet_head first)
    have hb := base64CharOf_spec url (v := ((first &&& 0x03) <<< 4) + ((second &&& 0xF0) >>> 4))
      (by rw [sextet_pair]; omega)
    have hc := base64CharOf_spec url (v := ((second &&& 0x0F) <<< 2) + ((third &&& 0xC0) >>> 6))
      (by rw [sextet_next]; omega)
    have hd := base64CharOf_spec url (v := third &&& 0x3F) (by rw [(sextets third).2.2.2.2.2]; omega)
    rw [base64EncodeUrl]
    refine (@decodeChunks_append [_, _, _, _] rfl _).trans ?_
    simp only [decodeChunk, ha.1, hb.1, hc.1, hd.1, hc.2, hd.2, Option.bind_eq_bind,
      Option.bind_some, Bool.false_eq_true, if_false, ih, Option.map_some,
      octet_head first (sextets first).1 (by omega) (sextet_pair first second),
      octet_next second (sextet_pair first second) (by omega) (sextet_next second third),
      octet_last third (sextet_next second third) (sextets third).2.2.2.2.2]
    rfl
  | case2 first second =>
    have hsecond := second.toNat_lt
    have hlow := (sextets second).2.2.2.1
    have ha := base64CharOf_spec url (sextet_head first)
    have hb := base64CharOf_spec url (v := ((first &&& 0x03) <<< 4) + ((second &&& 0xF0) >>> 4))
      (by rw [sextet_pair]; omega)
    have hc := base64CharOf_spec url (v := (second &&& 0x0F) <<< 2) (by rw [hlow]; omega)
    rw [base64EncodeUrl]
    refine (@decodeChunks_append [_, _, _, _] rfl []).trans ?_
    rw [decodeChunks, dif_pos rfl]
    simp only [decodeChunk, ha.1, hb.1, hc.1, hc.2, Option.bind_eq_bind,
      Option.bind_some, Bool.false_eq_true, if_false, Option.map_some,
      octet_head first (sextets first).1 (by omega) (sextet_pair first second),
      octet_next second (sextet_pair first second) (by decide : 0 < 4) hlow]
    rfl
  | case3 first =>
    have hlow := (sextets first).2.1
    have ha := base64CharOf_spec url (sextet_head first)
    have hb := base64CharOf_spec url (v := (first &&& 0x03) <<< 4) (by rw [hlow]; omega)
    rw [base64EncodeUrl]
    refine (@decodeChunks_append [_, _, _, _] rfl []).trans ?_
    rw [decodeChunks, dif_pos rfl]
    simp only [decodeChunk, ha.1, hb.1, Option.bind_eq_bind, Option.bind_some, Option.map_some,
      octet_head first (sextets first).1 (by decide : 0 < 16) hlow]
    rfl
  | case4 => rw [base64EncodeUrl, decodeChunks, dif_pos rfl]

theorem not_whitespace_char (url : Bool) (value : Nat) :
    isDecodeWhitespace (base64CharOf url value) = false := by
  have hall : ∀ url, ∀ n : Fin 64, isDecodeWhitespace (base64CharOf url n) = false := by
    decide +kernel
  by_cases h : value < 64
  · exact hall url ⟨value, h⟩
  have hlast : base64CharOf url value = base64CharOf url 63 := by
    simp only [base64CharOf, base64CharUrl, base64Char, show ¬ value < 26 by omega,
      show ¬ value < 52 by omega, show ¬ value < 62 by omega, show ¬ value = 62 by omega, if_false]
    rfl
  rw [hlast]
  exact hall url 63

theorem not_whitespace_encode (url : Bool) (s : Bytes) :
    ∀ c ∈ base64EncodeUrl url s, isDecodeWhitespace c = false := by
  induction s using base64EncodeUrl.induct with
  | case1 first second third rest ih =>
    simp only [base64EncodeUrl, forall_mem_cons, not_whitespace_char, true_and]
    exact ih
  | case2 first second =>
    simp only [base64EncodeUrl, forall_mem_cons, not_whitespace_char, true_and]
    exact ⟨rfl, nofun⟩
  | case3 first =>
    simp only [base64EncodeUrl, forall_mem_cons, not_whitespace_char, true_and]
    exact ⟨rfl, rfl, nofun⟩
  | case4 => exact nofun

theorem filter_copyLines (distance : Nat) (str : Bytes) :
    (copyLines distance str).filter (!isDecodeWhitespace ·) =
      str.filter (!isDecodeWhitespace ·) := by
  induction str using copyLines.induct distance with
  | case1 str h => rw [copyLines, dif_pos h]
  | case2 str h ih =>
  rw [copyLines, dif_neg h, filter_append]
  conv_rhs => rw [← take_append_drop distance str, filter_append]
  refine congrArg _ ?_
  split
  · next hlast => rw [hlast]
  next hmore => exact ih

theorem decodeText_lines (s : Bytes) (distance : Nat) :
    decodeText (insertLinebreaks (base64EncodeUrl false s) distance) true = some s := by
  have hkeep : (base64EncodeUrl false s).filter (!isDecodeWhitespace ·) = base64EncodeUrl false s :=
    List.filter_eq_self.2 fun c hc => by rw [not_whitespace_encode false s c hc]; rfl
  have hlines : (insertLinebreaks (base64EncodeUrl false s) distance).filter
      (!isDecodeWhitespace ·) = base64EncodeUrl false s := by
    unfold insertLinebreaks
    split
    · exact hkeep
    split
    · exact hkeep
    exact (filter_copyLines ..).trans hkeep
  rw [decodeText_eq, textOf, if_pos rfl, hlines, decodeChunks_encode]

/-! ## The codec -/

/-- Encoded strings are decoded, in every format; both checks of a text agree; and a text with a
foreign character is refused exactly when it is not one in which that character hides behind the
padding of a group, with groups that are otherwise well formed. -/
theorem base64_codec_iff (s t : Bytes) (url flag : Bool) :
    decodeText (base64EncodeUrl url s) false = some s ∧
    (decodeText (base64EncodePem s) true = some s ∧
      decodeText (base64EncodeMime s) true = some s) ∧
    canDecodeText t flag = (decodeText t flag).isSome ∧
    (((∃ c ∈ textOf t flag, Foreign c) →
        canDecodeText t flag = false ∧ decodeText t flag = none) ↔
      ¬ ((∃ group ∈ groups (textOf t flag), Hidden group) ∧
        ∀ group ∈ groups (textOf t flag), Shaped group)) := by
  refine ⟨?_, ⟨decodeText_lines s 64, decodeText_lines s 76⟩, canDecodeText_eq t flag, ?_⟩
  · rw [decodeText_eq, textOf, if_neg Bool.false_ne_true, decodeChunks_encode]
  obtain ⟨hflat, hlen, hsome, hshaped⟩ := groups_spec (textOf t flag)
  rw [canDecodeText_eq, decodeText_eq, ← hshaped, ← hsome]
  constructor
  · rintro hreject ⟨⟨group, hgroup, a, b, p, d, rfl, -, hd⟩, haccept⟩
    have hmem : d ∈ textOf t flag := by
      rw [← hflat]
      exact List.mem_flatten.2 ⟨_, hgroup, by simp⟩
    rw [(hreject ⟨d, hmem, hd⟩).1] at haccept
    cases haccept
  rintro hno ⟨c, hmem, hc⟩
  have hnone : (decodeChunks (textOf t flag)).isSome = false := by
    refine Bool.eq_false_iff.2 fun haccept => hno ⟨?_, haccept⟩
    rw [hsome, hshaped] at haccept
    rw [← hflat] at hmem
    obtain ⟨group, hgroup, hin⟩ := List.mem_flatten.1 hmem
    exact ⟨group, hgroup, hidden_of_foreign (hlen group hgroup) (haccept group hgroup) hin hc⟩
  exact ⟨hnone, Option.not_isSome_iff_eq_none.1 (Bool.eq_false_iff.1 hnone)⟩

/-- An exclamation mark behind the padding. -/
theorem not_refused_hidden : Foreign 0x21 ∧
    canDecodeText [0x41, 0x42, 0x3D, 0x21] false = true ∧
      decodeText [0x41, 0x42, 0x3D, 0x21] false = some [0] := by
  refine ⟨⟨by decide, by decide⟩, by decide, ?_⟩
  rw [decodeText_eq, textOf, if_neg Bool.false_ne_true]
  exact (@decodeChunks_append [0x41, 0x42, 0x3D, 0x21] rfl []).trans (by rw [decodeChunks]; rfl)

end Galay.Utils
