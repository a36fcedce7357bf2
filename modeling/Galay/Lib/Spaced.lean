import Mathlib.Data.List.Basic
import Mathlib.Data.List.TakeWhile

/-!
# Pieces with blanks between them

A text may hold its pieces one after the other with any blanks before, between and behind them.
Trimming takes off the blanks at its ends and leaves the first and the last piece there.
-/

namespace Galay.Lib

open List

variable {α : Type*} {blank : α → Bool} {pieces pieces' : List (List α)}
  {piece piece' text text' before behind middle : List α} {c : α}

/-- The text without the blanks at its ends. -/
def trim (blank : α → Bool) (text : List α) : List α :=
  ((text.dropWhile blank).reverse.dropWhile blank).reverse

/-- The text has no blank at an end. -/
structure Solid (blank : α → Bool) (text : List α) : Prop where
  ne_nil : text ≠ []
  head : ∀ c, text.head? = some c → blank c = false
  last : ∀ c, text.getLast? = some c → blank c = false

theorem solid_singleton (h : blank c = false) : Solid blank [c] where
  ne_nil := cons_ne_nil c []
  head := by
    intro c' hc'
    cases hc'
    exact h
  last := by
    intro c' hc'
    cases hc'
    exact h

theorem Solid.append (h : Solid blank text) (h' : Solid blank text') (middle : List α) :
    Solid blank (text ++ middle ++ text') where
  ne_nil := append_ne_nil_of_right_ne_nil _ h'.ne_nil
  head := by
    intro c hc
    obtain ⟨first, rest, rfl⟩ := exists_cons_of_ne_nil h.ne_nil
    exact h.head c hc
  last := by
    intro c hc
    rw [getLast?_append_of_ne_nil _ h'.ne_nil] at hc
    exact h'.last c hc

theorem dropWhile_blanks (hbefore : ∀ c ∈ before, blank c = true) (text : List α) :
    (before ++ text).dropWhile blank = text.dropWhile blank := by
  induction before with
  | nil => rfl
  | cons c before ih =>
  rw [cons_append, dropWhile_cons_of_pos (hbefore c mem_cons_self)]
  exact ih fun c' hc' => hbefore c' (mem_cons_of_mem c hc')

theorem dropWhile_of_head (h : ∀ c, text.head? = some c → blank c = false) :
    text.dropWhile blank = text := by
  cases text with
  | nil => rfl
  | cons c text => exact dropWhile_cons_of_neg (by rw [h c rfl]; exact Bool.false_ne_true)

theorem trim_blanks (h : ∀ c ∈ text, blank c = true) : trim blank text = [] := by
  have hnone : text.dropWhile blank = [] := by
    have hall := dropWhile_blanks h []
    rwa [append_nil] at hall
  rw [trim, hnone]
  rfl

theorem trim_solid (hbefore : ∀ c ∈ before, blank c = true) (h : Solid blank middle)
    (hbehind : ∀ c ∈ behind, blank c = true) : trim blank (before ++ middle ++ behind) = middle := by
  have hfront : (before ++ middle ++ behind).dropWhile blank = middle ++ behind := by
    rw [append_assoc, dropWhile_blanks hbefore]
    obtain ⟨first, rest, rfl⟩ := exists_cons_of_ne_nil h.ne_nil
    exact dropWhile_of_head h.head
  have hback : (middle ++ behind).reverse.dropWhile blank = middle.reverse := by
    rw [reverse_append, dropWhile_blanks fun c hc => hbehind c (List.mem_reverse.1 hc)]
    refine dropWhile_of_head fun c hc => h.last c ?_
    rwa [head?_reverse] at hc
  rw [trim, hfront, hback, reverse_reverse]

theorem trim_of_solid (h : Solid blank text) : trim blank text = text := by
  have htrim : trim blank ([] ++ text ++ []) = text := trim_solid nofun h nofun
  rwa [nil_append, append_nil] at htrim

/-! ## Pieces -/

/-- The text holds the pieces in order, with nothing but blanks around them. -/
inductive Spaced (blank : α → Bool) : List (List α) → List α → Prop
  | nil : Spaced blank [] []
  | blank {c : α} {pieces : List (List α)} {text : List α} (hc : blank c = true)
    (h : Spaced blank pieces text) : Spaced blank pieces (c :: text)
  | piece {piece : List α} {pieces : List (List α)} {text : List α}
    (h : Spaced blank pieces text) : Spaced blank (piece :: pieces) (piece ++ text)

theorem spaced_single (piece : List α) : Spaced blank [piece] piece := by
  have hpiece : Spaced blank [piece] (piece ++ []) := .piece .nil
  rwa [append_nil] at hpiece

theorem spaced_nil_iff : Spaced blank [] text ↔ ∀ c ∈ text, blank c = true := by
  constructor
  · intro h
    generalize hnone : ([] : List (List α)) = pieces at h
    induction h with
    | nil => exact nofun
    | blank hc _ ih =>
      intro c' hc'
      rcases List.mem_cons.1 hc' with rfl | hc'
      · exact hc
      exact ih hnone c' hc'
    | piece _ => cases hnone
  intro h
  induction text with
  | nil => exact .nil
  | cons c text ih =>
  exact .blank (h c mem_cons_self) (ih fun c' hc' => h c' (mem_cons_of_mem c hc'))

theorem Spaced.append (h : Spaced blank pieces text) (h' : Spaced blank pieces' text') :
    Spaced blank (pieces ++ pieces') (text ++ text') := by
  induction h with
  | nil => exact h'
  | blank hc _ ih => exact .blank hc ih
  | piece _ ih =>
  rw [append_assoc]
  exact .piece ih

theorem Spaced.cons_split (h : Spaced blank (piece :: pieces) text) :
    ∃ before rest, text = before ++ piece ++ rest ∧ (∀ c ∈ before, blank c = true) ∧
      Spaced blank pieces rest := by
  generalize hall : piece :: pieces = all at h
  induction h with
  | nil => cases hall
  | @blank c _ _ hc _ ih =>
    obtain ⟨before, rest, rfl, hbefore, hrest⟩ := ih hall
    refine ⟨c :: before, rest, rfl, fun c' hc' => ?_, hrest⟩
    rcases List.mem_cons.1 hc' with rfl | hc'
    · exact hc
    exact hbefore c' hc'
  | @piece _ _ text h _ =>
  cases hall
  exact ⟨[], text, rfl, nofun, h⟩

/-- What stands before some pieces, and what stands behind them. -/
theorem Spaced.append_split (h : Spaced blank (pieces ++ pieces') text) :
    ∃ front back, text = front ++ back ∧ Spaced blank pieces front ∧
      Spaced blank pieces' back := by
  induction pieces generalizing text with
  | nil => exact ⟨[], text, rfl, .nil, h⟩
  | cons piece pieces ih =>
  obtain ⟨before, rest, rfl, hbefore, hrest⟩ := h.cons_split
  obtain ⟨front, back, rfl, hfront, hback⟩ := ih hrest
  refine ⟨before ++ piece ++ front, back, (append_assoc ..).symm, ?_, hback⟩
  rw [append_assoc]
  exact (spaced_nil_iff.2 hbefore).append (.piece hfront)

theorem Spaced.trim_single (h : Spaced blank [piece] text) (hsolid : Solid blank piece) :
    trim blank text = piece := by
  obtain ⟨before, behind, rfl, hbefore, hbehind⟩ := h.cons_split
  exact trim_solid hbefore hsolid (spaced_nil_iff.1 hbehind)

theorem Spaced.trim_ends (h : Spaced blank (piece :: pieces ++ [piece']) text)
    (hsolid : Solid blank piece) (hsolid' : Solid blank piece') :
    ∃ body, trim blank text = piece ++ body ++ piece' ∧ Spaced blank pieces body := by
  rw [cons_append] at h
  obtain ⟨before, rest, rfl, hbefore, hrest⟩ := h.cons_split
  obtain ⟨front, back, rfl, hfront, hback⟩ := hrest.append_split
  obtain ⟨before', behind, rfl, hbefore', hbehind⟩ := hback.cons_split
  refine ⟨front ++ before', ?_, ?_⟩
  · have hparts : before ++ piece ++ (front ++ (before' ++ piece' ++ behind)) =
        before ++ (piece ++ (front ++ before') ++ piece') ++ behind := by
      simp only [append_assoc]
    rw [hparts]
    exact trim_solid hbefore (hsolid.append hsolid' _) (spaced_nil_iff.1 hbehind)
  have hspaced := hfront.append (spaced_nil_iff.2 hbefore')
  rwa [append_nil] at hspaced

theorem Spaced.trim_cons (h : Spaced blank (piece :: pieces) text)
    (hsolid : ∀ piece' ∈ piece :: pieces, Solid blank piece') :
    ∃ rest, trim blank text = piece ++ rest ∧ Spaced blank pieces rest := by
  have hpiece := hsolid piece mem_cons_self
  rcases pieces.eq_nil_or_concat with rfl | ⟨pieces, piece', rfl⟩
  · exact ⟨[], by rw [h.trim_single hpiece, append_nil], .nil⟩
  rw [concat_eq_append] at h hsolid ⊢
  obtain ⟨body, htrim, hbody⟩ := h.trim_ends hpiece
    (hsolid piece' (mem_cons_of_mem _ (mem_append_right _ mem_cons_self)))
  exact ⟨body ++ piece', by rw [htrim, append_assoc], hbody.append (spaced_single piece')⟩

theorem Spaced.trim_concat (h : Spaced blank (pieces ++ [piece]) text)
    (hsolid : ∀ piece' ∈ pieces ++ [piece], Solid blank piece') :
    ∃ rest, trim blank text = rest ++ piece ∧ Spaced blank pieces rest := by
  have hpiece := hsolid piece (mem_append_right _ mem_cons_self)
  cases pieces with
  | nil => exact ⟨[], by rw [h.trim_single hpiece, nil_append], .nil⟩
  | cons first pieces =>
  obtain ⟨body, htrim, hbody⟩ := h.trim_ends (hsolid first mem_cons_self) hpiece
  exact ⟨first ++ body, htrim, .piece hbody⟩

theorem Spaced.trim (h : Spaced blank pieces text) (hsolid : ∀ piece ∈ pieces, Solid blank piece) :
    Spaced blank pieces (trim blank text) := by
  cases pieces with
  | nil =>
    rw [trim_blanks (spaced_nil_iff.1 h)]
    exact .nil
  | cons piece pieces =>
  obtain ⟨rest, htrim, hrest⟩ := h.trim_cons hsolid
  rw [htrim]
  exact .piece hrest

theorem Spaced.trim_ne_nil (h : Spaced blank pieces text) (hne : pieces ≠ [])
    (hsolid : ∀ piece ∈ pieces, Solid blank piece) : Lib.trim blank text ≠ [] := by
  obtain ⟨piece, pieces, rfl⟩ := exists_cons_of_ne_nil hne
  obtain ⟨rest, htrim, _⟩ := h.trim_cons hsolid
  rw [htrim]
  exact append_ne_nil_of_left_ne_nil (hsolid piece mem_cons_self).ne_nil rest

end Galay.Lib
