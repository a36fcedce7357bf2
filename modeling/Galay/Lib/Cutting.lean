import Mathlib.Data.List.Forall2

/-!
# Messages cut into pieces

Messages are cut into pieces one after the other, and the last piece of a message carries its mark.
`Cut` says which messages are finished, which pieces are theirs, and where the first of the others
has been cut; its rules are the three things a sender does: it takes a message on, cuts a piece off,
or finishes a message.
-/

namespace Galay.Lib

open List

variable {α : Type*}

/-- Data with a mark: a message that asks for the mark, or a piece that carries it. -/
structure Marked (α : Type*) where
  data : List α
  marked : Bool

/-- The data of all. -/
def joined (items : List (Marked α)) : List α := items.flatMap Marked.data

theorem joined_append (items items' : List (Marked α)) :
    joined (items ++ items') = joined items ++ joined items' := flatMap_append

@[simp] theorem joined_singleton (item : Marked α) : joined [item] = item.data :=
  flatMap_singleton _ _

/-- The pieces are the message, and the mark is on the last. -/
def Finished (message : Marked α) (pieces : List (Marked α)) : Prop :=
  ∃ front last, pieces = front ++ [last] ∧ (∀ piece ∈ front, piece.marked = false) ∧
    last.marked = message.marked ∧ joined pieces = message.data

/-- The pieces are the front of the first message. -/
def Begun (messages : List (Marked α)) (offset : Nat) (pieces : List (Marked α)) : Prop :=
  match messages with
  | [] => pieces = [] ∧ offset = 0
  | message :: _ => (∀ piece ∈ pieces, piece.marked = false) ∧
      joined pieces = message.data.take offset ∧ offset ≤ message.data.length

/-- The messages have been cut into the pieces, up to an offset in the first of those left. -/
def Cut (messages pieces : List (Marked α)) (offset : Nat) (left : List (Marked α)) : Prop :=
  ∃ done groups begun, messages = done ++ left ∧ pieces = groups.flatten ++ begun ∧
    List.Forall₂ Finished done groups ∧ Begun left offset begun

section Rules

variable {messages pieces left : List (Marked α)} {message : Marked α} {offset n : Nat}

theorem Cut.nil : Cut ([] : List (Marked α)) [] 0 [] :=
  ⟨[], [], [], rfl, rfl, .nil, rfl, rfl⟩

theorem Cut.queue (h : Cut messages pieces offset left) (more : List (Marked α)) :
    Cut (messages ++ more) pieces offset (left ++ more) := by
  obtain ⟨done, groups, begun, rfl, rfl, hdone, hbegun⟩ := h
  refine ⟨done, groups, begun, append_assoc .., rfl, hdone, ?_⟩
  cases left with
  | cons message left => exact hbegun
  | nil =>
  obtain ⟨rfl, rfl⟩ := hbegun
  cases more with
  | nil => exact ⟨rfl, rfl⟩
  | cons message more => exact ⟨nofun, rfl, Nat.zero_le _⟩

theorem Cut.piece (h : Cut messages pieces offset (message :: left))
    (hn : offset + n ≤ message.data.length) :
    Cut messages (pieces ++ [⟨(message.data.drop offset).take n, false⟩]) (offset + n)
      (message :: left) := by
  obtain ⟨done, groups, begun, rfl, rfl, hdone, hunmarked, hdata, -⟩ := h
  refine ⟨done, groups, begun ++ [⟨(message.data.drop offset).take n, false⟩], rfl,
    append_assoc .., hdone, ?_, ?_, hn⟩
  · intro piece hpiece
    rcases List.mem_append.1 hpiece with hmem | hmem
    · exact hunmarked piece hmem
    rw [List.mem_singleton.1 hmem]
  rw [joined_append, joined_singleton, hdata, take_add]

theorem Cut.finish (h : Cut messages pieces offset (message :: left)) :
    Cut messages (pieces ++ [⟨message.data.drop offset, message.marked⟩]) 0 left := by
  obtain ⟨done, groups, begun, rfl, rfl, hdone, hunmarked, hdata, -⟩ := h
  refine ⟨done ++ [message], groups ++ [begun ++ [⟨message.data.drop offset, message.marked⟩]], [],
    by simp, by simp, ?_, ?_⟩
  · refine rel_append hdone (.cons ⟨begun, _, rfl, hunmarked, rfl, ?_⟩ .nil)
    rw [joined_append, joined_singleton, hdata, take_append_drop]
  cases left with
  | nil => exact ⟨rfl, rfl⟩
  | cons next left => exact ⟨nofun, rfl, Nat.zero_le _⟩

theorem joined_flatten {done : List (Marked α)}
    (h : List.Forall₂ Finished done groups) : joined groups.flatten = joined done := by
  induction h with
  | nil => rfl
  | cons hfirst _ ih =>
  obtain ⟨_, _, -, -, -, hdata⟩ := hfirst
  rw [flatten_cons, joined_append, ih, hdata]
  rfl

/-- What has been sent is the front of what was to be sent. -/
theorem Cut.joined_isPrefix (h : Cut messages pieces offset left) :
    joined pieces <+: joined messages := by
  obtain ⟨done, groups, begun, rfl, rfl, hdone, hbegun⟩ := h
  rw [joined_append, joined_append, joined_flatten hdone]
  refine prefix_append_right_inj _ |>.2 ?_
  cases left with
  | nil =>
    obtain ⟨rfl, -⟩ := hbegun
    exact nil_prefix
  | cons message left =>
  rw [hbegun.2.1]
  exact ( take_prefix _ _).trans (prefix_append _ _)

theorem marked_of_finished (h : List.Forall₂ Finished done groups) {back : List (Marked α)}
    (hsplit : groups.flatten = front ++ piece :: back) (hmarked : piece.marked = true) :
    ∃ before message after, done = before ++ message :: after ∧ message.marked = true ∧
      joined (front ++ [piece]) = joined (before ++ [message]) := by
  induction h generalizing front with
  | nil => cases front <;> cases hsplit
  | @cons message group done groups hfirst hrest ih =>
  obtain ⟨unmarked, last, rfl, hunmarked, hlast, hdata⟩ := hfirst
  rw [flatten_cons] at hsplit
  rcases List.append_eq_append_iff.1 hsplit with ⟨rest, rfl, hgroups⟩ | ⟨rest, hgroup, hback⟩
  · -- the piece is in a later group
    obtain ⟨before, m, after, rfl, hm, hjoined⟩ := ih hgroups
    refine ⟨message :: before, m, after, rfl, hm, ?_⟩
    rw [append_assoc, joined_append, hjoined, hdata]
    rfl
  cases rest with
  | nil =>
    rw [append_nil] at hgroup
    obtain ⟨before, m, after, rfl, hm, hjoined⟩ := @ih [] hback.symm
    refine ⟨message :: before, m, after, rfl, hm, ?_⟩
    rw [← hgroup, joined_append, hdata, ← nil_append [piece], hjoined]
    rfl
  | cons piece' rest =>
  obtain ⟨rfl, -⟩ := List.cons.inj hback
  -- only the last piece of the message is marked
  rcases eq_nil_or_concat rest with rfl | ⟨rest, other, rfl⟩
  · obtain ⟨rfl, hpiece⟩ := append_inj' hgroup rfl
    obtain rfl : last = piece := List.singleton_inj.1 hpiece
    refine ⟨[], message, done, rfl, hlast ▸ hmarked, ?_⟩
    rw [hdata, nil_append, joined_singleton]
  rw [concat_eq_append, ← cons_append, ← append_assoc] at hgroup
  obtain ⟨rfl, -⟩ := append_inj' hgroup rfl
  have := hunmarked piece (mem_append_right _ mem_cons_self)
  rw [hmarked] at this
  cases this

theorem Cut.marked (h : Cut messages pieces offset left)
    {piece : Marked α} (hsplit : pieces = front ++ piece :: back) (hmarked : piece.marked = true) :
    ∃ before message after, messages = before ++ message :: after ∧ message.marked = true ∧
      joined (front ++ [piece]) = joined (before ++ [message]) := by
  obtain ⟨done, groups, begun, rfl, rfl, hdone, hbegun⟩ := h
  have hnone : ∀ piece ∈ begun, piece.marked = false := by
    cases left with
    | nil =>
      rw [hbegun.1]
      nofun
    | cons message left => exact hbegun.1
  have hmem : piece ∉ begun := fun hpiece => by
    rw [hnone piece hpiece] at hmarked
    cases hmarked
  rcases List.append_eq_append_iff.1 hsplit with ⟨rest, rfl, hgroups⟩ | ⟨rest, hgroup, hback⟩
  · exact absurd (hgroups ▸ mem_append_right rest mem_cons_self) hmem
  cases rest with
  | nil =>
    have hbegun : piece :: back = begun := hback
    exact absurd (hbegun ▸ mem_cons_self) hmem
  | cons piece' rest =>
  obtain ⟨rfl, -⟩ := List.cons.inj hback
  obtain ⟨before, message, after, rfl, hm, hjoined⟩ := marked_of_finished hdone hgroup hmarked
  exact ⟨before, message, after ++ left, by simp, hm, hjoined⟩

end Rules

end Galay.Lib
