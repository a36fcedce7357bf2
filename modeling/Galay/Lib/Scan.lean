import Galay.Lib.Feed

/-!
# Scanners

A scanner takes blocks where a machine takes symbols: a turn collects the symbols of one kind and
looks at the symbol behind them. `Turn.Runs` says that a turn is a run of the machine. Turns that
are runs make a scan that is a run (`Scanner.Refines.runs_scan`).
-/

namespace Galay.Lib

open List

variable {α σ ε : Type}

/-- What one turn does with the symbols that are left. -/
inductive Turn (α σ ε : Type)
  | go (state : σ) (rest : List α)
  | done (state : σ) (rest : List α)
  | fail (error : ε) (state : σ)

variable {react : σ → α → Reaction σ ε} {data : List α}

namespace Turn

/-- A turn that fails may leave another state than the machine. -/
def Runs (react : σ → α → Reaction σ ε) (state : σ) (data : List α) : Turn α σ ε → Prop
  | .go state' rest => ∃ front, data = front ++ rest ∧ feed react state front = .more state'
  | .done state' rest =>
    ∃ front, data = front ++ rest ∧ feed react state front = .stopped state' front.length
  | .fail error _ => feed react state data = .failed error

variable {turn : Turn α σ ε}

theorem Runs.append (hfront : feed react state front = .more state')
    (hturn : turn.Runs react state' back) : turn.Runs react state (front ++ back) := by
  cases turn with
  | go state'' rest =>
    obtain ⟨middle, rfl, hmiddle⟩ := hturn
    refine ⟨front ++ middle, (append_assoc ..).symm, ?_⟩
    rw [feed_append_of_more hfront, hmiddle, Progress.shift_more]
  | done state'' rest =>
    obtain ⟨middle, rfl, hmiddle⟩ := hturn
    refine ⟨front ++ middle, (append_assoc ..).symm, ?_⟩
    rw [feed_append_of_more hfront, hmiddle, Progress.shift_stopped, length_append]
  | fail error state'' =>
  have hback : feed react state' back = .failed error := hturn
  exact (feed_append_of_more hfront back).trans (by rw [hback, Progress.shift_failed])

theorem Runs.nil (state : σ) : (Turn.go state [] : Turn α σ ε).Runs react state [] :=
  ⟨[], rfl, rfl⟩

/-- A turn that collects a word and then does something else. -/
theorem Runs.word (hword : feed react state (data.takeWhile p) = .more state')
    (hturn : turn.Runs react state' (data.dropWhile p)) : turn.Runs react state data := by
  have h := hturn.append hword
  rwa [takeWhile_append_dropWhile] at h

end Turn

theorem not_of_dropWhile (h : data.dropWhile p = symbol :: rest) : p symbol = false := by
  have hhead := head?_dropWhile_not p data
  rw [h] at hhead
  simpa using hhead

theorem length_lt_of_dropWhile (h : data.dropWhile p = symbol :: rest) :
    rest.length < data.length := by
  have hle := (dropWhile_suffix (l := data) p).length_le
  rw [h, length_cons] at hle
  omega

theorem feed_takeWhile_collect {f : List α → σ} (data : List α) (word : List α)
    (hreact : ∀ word symbol, p symbol = true → react (f word) symbol = .next (f (word ++ [symbol])))
    :
    feed react (f word) (data.takeWhile p) = .more (f (word ++ data.takeWhile p)) :=
  feed_collect hreact (List.all_eq_true.1 all_takeWhile) word

theorem feed_takeWhile_skip (data : List α)
    (hreact : ∀ symbol, p symbol = true → react state symbol = .next state) :
    feed react state (data.takeWhile p) = .more state :=
  feed_skip hreact (List.all_eq_true.1 all_takeWhile)

/-! ## Turn after turn -/

/-- A turn that goes on has read something. -/
structure Scanner (α σ ε : Type) where
  turn : σ → List α → Turn α σ ε
  length_lt : ∀ {state state' : σ} {data rest : List α}, data ≠ [] →
    turn state data = .go state' rest → rest.length < data.length

namespace Scanner

variable (scanner : Scanner α σ ε)

def scan (state : σ) (data : List α) : Turn α σ ε :=
  if hdata : data = [] then .go state []
  else
    match h : scanner.turn state data with
    | .go state' rest => scan state' rest
    | .done state' rest => .done state' rest
    | .fail error state' => .fail error state'
termination_by data.length
decreasing_by exact scanner.length_lt hdata h

theorem scan_go (h : scanner.scan state data = .go state' rest) : rest = [] := by
  fun_induction scanner.scan state data with
  | case1 state =>
    cases h
    rfl
  | case2 state data hdata state'' rest' _ ih => exact ih h
  | case3 state data hdata state'' rest' _ => cases h
  | case4 state data hdata error state'' _ => cases h

/-- The turns of a scanner are runs of a machine, as long as `P` holds. -/
structure Refines (react : σ → α → Reaction σ ε) (P : σ → Prop) : Prop where
  runs : ∀ {state : σ} {data : List α}, P state → data ≠ [] →
    (scanner.turn state data).Runs react state data
  next : ∀ {state symbol state'}, P state → react state symbol = .next state' → P state'
  fail : ∀ {state state' : σ} {data : List α} {error : ε}, P state →
    scanner.turn state data = .fail error state' → P state'

variable {scanner} {P : σ → Prop} (H : scanner.Refines react P)
include H

theorem Refines.go (hst : P state) (hdata : data ≠ [])
    (h : scanner.turn state data = .go state' rest) :
    P state' ∧ ∃ front, data = front ++ rest ∧ feed react state front = .more state' := by
  have hruns := H.runs hst hdata
  rw [h] at hruns
  obtain ⟨front, hfront, hmore⟩ := hruns
  exact ⟨feed_more_invariant H.next hst hmore, front, hfront, hmore⟩

theorem Refines.runs_scan (hst : P state) (data : List α) :
    (scanner.scan state data).Runs react state data := by
  fun_induction scanner.scan state data with
  | case1 state => exact .nil state
  | case2 state data hdata state' rest h ih =>
    obtain ⟨hst', front, rfl, hfront⟩ := H.go hst hdata h
    exact (ih hst').append hfront
  | case3 state data hdata state' rest h =>
    have hruns := H.runs hst hdata
    rwa [h] at hruns
  | case4 state data hdata error state' h =>
  have hruns := H.runs hst hdata
  rwa [h] at hruns

theorem Refines.scan_fail (hst : P state)
    (h : scanner.scan state data = .fail error state') : P state' := by
  fun_induction scanner.scan state data with
  | case1 state => cases h
  | case2 state data hdata state'' rest hgo ih => exact ih (H.go hst hdata hgo).1 h
  | case3 state data hdata state'' rest _ => cases h
  | case4 state data hdata error' state'' hgo =>
  cases h
  exact H.fail hst hgo

end Scanner

end Galay.Lib
