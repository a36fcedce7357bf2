import Galay.Redis.RespStability

/-!
# Replies and read boundaries

The bytes of a connection come in chunks. Replies that follow the grammar are the same however the
chunks are cut. For a single reply, the result of the parser depends on what follows exactly where
it does not follow the grammar or ends in an empty simple string.
-/

namespace Galay.Redis

open List

variable {δ : Type} {strtod : Bytes → Strtod δ}

/-! ## One reply -/

/-- The result of the parser depends on the bytes of the reply, and on all of them. -/
structure Stable (strtod : Bytes → Strtod δ) (data : Bytes) (n : Nat) (reply : RedisReply δ) :
    Prop where
  pos : 0 < n
  le : n ≤ data.length
  same : ∀ rest, parseFast strtod (data.take n ++ rest) = .ok (n, reply)
  incomplete : ∀ cut rest, cut ++ rest = data.take n → rest ≠ [] →
    parseFast strtod cut = .error .Incomplete

section One

variable {before after : Bool} {reply : RedisReply δ} {wire rest cut data : Bytes} {n : Nat}

theorem Replies.incomplete_one (hreply : Replies strtod before [reply] wire after)
    (hcut : cut ++ rest = wire) (hrest : rest ≠ []) :
    parseFast strtod cut = .error .Incomplete := by
  have hone := hreply.incomplete hcut hrest
  rw [length_singleton, parseElements] at hone
  split at hone
  · next hnil =>
    subst hnil
    rfl
  split at hone
  · next herr =>
    rw [herr]
    cases hone
    rfl
  cases hone

theorem Closed.stable (hclosed : Closed strtod reply wire) (rest : Bytes) :
    Stable strtod (wire ++ rest) wire.length reply where
  pos := List.length_pos_iff.2 (Replies.ne_nil hclosed)
  le := by
    rw [length_append]
    exact Nat.le_add_right _ _
  same back := by
    rw [take_left]
    exact Replies.read_one hclosed nofun
  incomplete cut back hcut hback := by
    rw [take_left] at hcut
    exact Replies.incomplete_one hclosed hcut hback

/-- A reply that ends in an empty simple string takes the line end that follows it. -/
theorem Replies.misread_one (hreply : Replies strtod before [reply] wire true) :
    ∃ misread, parseFast strtod (wire ++ CRLF) = .ok ((wire ++ CRLF).length, misread) := by
  obtain ⟨misread, hmisread⟩ := hreply.misread rfl (cons_ne_nil _ _)
  rw [length_singleton, parseElements] at hmisread
  split at hmisread
  · cases hmisread
  split at hmisread
  · cases hmisread
  next first hfirst =>
  simp only [parseElements, Except.ok.injEq, Prod.mk.injEq, Nat.add_zero] at hmisread
  rw [hfirst, hmisread.1]
  exact ⟨first, rfl⟩

theorem stable_iff (h : parseFast strtod data = .ok (n, reply)) :
    Stable strtod data n reply ↔
      ∃ reply' wire rest, data = wire ++ rest ∧ Closed strtod reply' wire := by
  constructor
  · intro hstable
    obtain ⟨wire, rest, rfl, rfl, ⟨after, hreply⟩ | hexposed⟩ := accepted_of_parseFast h
    · refine ⟨reply, wire, rest, rfl, ?_⟩
      cases after with
      | false => exact hreply false
      | true =>
      obtain ⟨misread, hmisread⟩ := (hreply false).misread_one
      have hsame := hstable.same CRLF
      rw [take_left, hmisread] at hsame
      have hlen := (Prod.mk.inj (Except.ok.inj hsame)).1
      rw [length_append] at hlen
      have hcrlf : CRLF.length = 2 := rfl
      omega
    obtain ⟨cut, back, hcut, hback, hread⟩ := hexposed.not_incomplete
    refine absurd (hstable.incomplete cut back ?_ hback) hread
    rw [take_left]
    exact hcut
  rintro ⟨reply', wire, rest, rfl, hclosed⟩
  have hstable := hclosed.stable rest
  have hsame := hstable.same rest
  rw [take_left, h] at hsame
  cases hsame
  exact hstable

end One

/-! ## Chunks -/

/-- The client parses what it has when a chunk comes, and keeps what it cannot parse yet. -/
def readReplies (strtod : Bytes → Strtod δ) :
    Nat → Bytes → List Bytes → ParseChunkState × List (RedisReply δ)
  | expected, _, [] => (if expected = 0 then .Done else .NeedMore, [])
  | expected, pending, chunk :: chunks =>
    let result := parseRepliesFromChunk strtod expected (pending ++ chunk)
    match result.state with
    | .NeedMore =>
      let (state, values) := readReplies strtod (expected - result.values.length)
        ((pending ++ chunk).drop result.consumed) chunks
      (state, result.values ++ values)
    | state => (state, result.values)

section Chunks

variable {before after : Bool} {replies : List (RedisReply δ)} {wire future data : Bytes}

theorem Replies.uncons (hreps : Replies strtod before (reply :: replies) wire after) :
    ∃ first tail empty, wire = first ++ tail ∧ Replies strtod before [reply] first empty ∧
      Replies strtod empty replies tail after := by
  cases hreps with
  | @leaf _ empty _ _ _ first tail hleaf htail =>
    refine ⟨first, tail, empty, rfl, ?_, htail⟩
    have hreply : Replies strtod before [reply] (first ++ []) empty := .leaf hleaf .nil
    rwa [append_nil] at hreply
  | @aggregate _ empty _ marker _ text first tail build elements _ haggregate htext hval helems
      htail =>
    refine ⟨_, tail, empty, rfl, ?_, htail⟩
    have hreply : Replies strtod before [build elements]
        (marker :: (text ++ CRLF ++ first) ++ []) empty :=
      .aggregate haggregate htext hval helems .nil
    rwa [append_nil] at hreply

/-- The replies that are complete are read; the others start where the parser stopped. -/
theorem Replies.read_chunk (hreps : Replies strtod before replies wire after)
    (hwire : data ++ future = wire) :
    ∃ read left before', replies = read ++ left ∧ (future = [] → left = []) ∧
      (parseRepliesFromChunk strtod replies.length data).values = read ∧
      (parseRepliesFromChunk strtod replies.length data).state =
        (if left = [] then .Done else .NeedMore) ∧
      Replies strtod before' left
        (data.drop (parseRepliesFromChunk strtod replies.length data).consumed ++ future) after := by
  induction replies generalizing before wire data with
  | nil => exact ⟨[], [], before, rfl, fun _ => rfl, rfl, rfl, hwire ▸ hreps⟩
  | cons reply replies ih =>
  subst hwire
  obtain ⟨first, tail, empty, hwire, hreply, htail⟩ := hreps.uncons
  rcases cut_append hwire with ⟨part, hpart, hfirst⟩ | ⟨part, rfl, hpart⟩
  · refine ⟨[], reply :: replies, before, rfl, fun hfuture => ?_, ?_⟩
    · rw [← hfirst, hfuture, append_assoc] at hwire
      exact absurd (List.append_eq_nil_iff.1 (append_cancel_left hwire).symm).1 hpart
    have hparse := hreply.incomplete_one hfirst hpart
    have hstop : parseRepliesFromChunk strtod (reply :: replies).length data =
        ⟨0, .NeedMore, []⟩ := by
      rw [length_cons, parseRepliesFromChunk]
      split
      · rfl
      rw [hparse]
    rw [hstop]
    exact ⟨rfl, rfl, hreps⟩
  have hparse := hreply.read_one (htail.not_isCrlfAt_part hpart)
  have hne : first ++ part ≠ [] := append_ne_nil_of_left_ne_nil hreply.ne_nil _
  obtain ⟨read, left, before', rfl, hfuture, hvalues, hst, hleft⟩ := ih htail hpart
  refine ⟨reply :: read, left, before', rfl, hfuture, ?_⟩
  rw [length_cons, parseRepliesFromChunk, if_neg hne, hparse]
  simp only [drop_left, hvalues, ← drop_drop]
  exact ⟨trivial, hst, hleft⟩

theorem Replies.read_chunks {chunks : List Bytes} {pending : Bytes}
    (hreps : Replies strtod before replies wire after)
    (hwire : pending ++ chunks.flatten = wire) (hmore : replies ≠ [] → chunks ≠ []) :
    readReplies strtod replies.length pending chunks = (.Done, replies) := by
  induction chunks generalizing before replies wire pending with
  | nil =>
    have hnil : replies = [] := Decidable.not_not.1 fun hne => hmore hne rfl
    subst hnil
    rfl
  | cons chunk chunks ih =>
  rw [flatten_cons, ← append_assoc] at hwire
  obtain ⟨read, left, before', hread, hfuture, hvalues, hst, hleft⟩ :=
    hreps.read_chunk hwire
  rw [readReplies]
  simp only [hst, hvalues]
  by_cases hdone : left = []
  · subst hdone
    rw [if_pos rfl, hread, append_nil]
  have hlen : replies.length - read.length = left.length := by
    rw [hread, length_append, Nat.add_sub_cancel_left]
  have hrest := ih hleft rfl fun _ hchunks => hdone (hfuture (by rw [hchunks]; rfl))
  rw [if_neg hdone, hlen]
  simp only [hrest]
  rw [← hread]

end Chunks

/-- A reply that was read is read the same whatever follows it, and is not read from a part of it,
exactly when the bytes start with a reply that follows the grammar and does not end in an empty
simple string. Replies that follow the grammar do not depend on where reads end. -/
theorem parseFast_stable_iff (strtod : Bytes → Strtod δ) :
    (∀ data n reply, parseFast strtod data = .ok (n, reply) →
      (Stable strtod data n reply ↔
        ∃ reply' wire rest, data = wire ++ rest ∧ Closed strtod reply' wire)) ∧
    ∀ replies wire after chunks, Replies strtod false replies wire after →
      chunks.flatten = wire → readReplies strtod replies.length [] chunks = (.Done, replies) := by
  refine ⟨fun data n reply h => stable_iff h, ?_⟩
  rintro replies wire after chunks hreps rfl
  refine hreps.read_chunks (nil_append _) fun hne hchunks => ?_
  subst hchunks
  cases replies with
  | nil => exact hne rfl
  | cons reply replies =>
    obtain ⟨first, tail, empty, hwire, hreply, -⟩ := hreps.uncons
    exact hreply.ne_nil (List.append_eq_nil_iff.1 hwire.symm).1

/-- `strtod` on texts that are no numbers. -/
def noDouble (_ : Bytes) : Strtod Unit := ⟨(), 0, false⟩

theorem parseFast_stable_ok :
    parseFast noDouble (ascii "+OK\r\n:1\r\n") = .ok (5, .string .SimpleString (ascii "OK")) ∧
      Stable noDouble (ascii "+OK\r\n:1\r\n") 5 (.string .SimpleString (ascii "OK")) ∧
      readReplies noDouble 2 [] [ascii "+O", ascii "K\r", ascii "\n+\r\n"] =
        (.Done, [.string .SimpleString (ascii "OK"), .string .SimpleString []]) := by
  have hok : Leaf noDouble (.string .SimpleString (ascii "OK")) (ascii "+OK\r\n") false :=
    .simple (by decide) (plain_of_length_two rfl (by decide))
  have hempty : Leaf noDouble (.string .SimpleString []) (ascii "+\r\n") true :=
    .simple (by decide) nofun
  have hparse : parseFast noDouble (ascii "+OK\r\n:1\r\n") =
    .ok (5, .string .SimpleString (ascii "OK")) := rfl
  refine ⟨hparse, ((parseFast_stable_iff noDouble).1 _ _ _ hparse).2 ?_, ?_⟩
  · exact ⟨_, ascii "+OK\r\n", ascii ":1\r\n", rfl, .leaf hok .nil⟩
  · exact (parseFast_stable_iff noDouble).2 _ _ _ _ (.leaf hok (.leaf hempty .nil)) rfl

/-- An empty simple string and the line end behind it. -/
theorem parseFast_not_stable :
    ¬ ∀ data n reply, parseFast noDouble data = .ok (n, reply) →
      Stable noDouble data n reply := by
  intro h
  have hparse : parseFast noDouble (ascii "+\r\n\r\n") =
    .ok (5, .string .SimpleString (ascii "\r\n")) := rfl
  have hcut := (h _ _ _ hparse).incomplete (ascii "+\r\n") (ascii "\r\n") rfl nofun
  have hread : parseFast noDouble (ascii "+\r\n") = .ok (3, .string .SimpleString []) := rfl
  rw [hread] at hcut
  cases hcut

end Galay.Redis
