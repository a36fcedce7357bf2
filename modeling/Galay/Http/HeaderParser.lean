import Galay.Http.Header
import Galay.Lib.Scan

/-!
# Parsers of a header (`galay-http/protoc/http_header.cc`)

Request and response headers have two parsers each for the same grammar: `fromString` takes one
character at a time, `fromIOVec` scans blocks. Both return an error code and a count, and leave the
header as far as they have come. The loops are the same for both kinds of header.
-/

namespace Galay.Http

open Lib (Reaction Progress feed Turn Scanner)

def SP : UInt8 := 0x20
def COLON : UInt8 := 0x3a

variable {σ : Type}

/-! ## The loops -/

/-- The code `kIncomplete` of a character says that the header is complete. -/
def fromStringLoop (parseChar : σ → UInt8 → HttpErrorCode × σ) (header : σ) (consumed : Int) :
    Bytes → (HttpErrorCode × Int) × σ
  | [] => ((.kNoError, 0), header)
  | c :: str =>
    match parseChar header c with
    | (.kIncomplete, header) => ((.kNoError, consumed + 1), header)
    | (.kNoError, header) => fromStringLoop parseChar header (consumed + 1) str
    | (err, header) => ((err, -1), header)

/-- What one turn of the loop over an `iovec` does with the bytes that are left of it. -/
abbrev Block (σ : Type) := Turn UInt8 σ HttpErrorCode

/-- A delimiter has been read: go on behind it, or fail. -/
def Block.ofResult (rest : Bytes) : HttpErrorCode × σ → Block σ
  | (.kNoError, header) => .go header rest
  | (err, header) => .fail err header

def fromIOVecLoop (parseIov : σ → Bytes → Block σ) (header : σ) (totalConsumed : Nat) :
    IoVecs → (HttpErrorCode × Int) × σ
  | [] => ((.kIncomplete, totalConsumed), header)
  | iov :: iovecs =>
    match parseIov header iov with
    | .go header _ => fromIOVecLoop parseIov header (totalConsumed + iov.length) iovecs
    | .done header rest => ((.kNoError, (totalConsumed + (iov.length - rest.length) : Nat)), header)
    | .fail err header => ((err, -1), header)

variable {result : HttpErrorCode × σ} {header : σ}

theorem Block.ofResult_go {rest' : Bytes} (h : Block.ofResult rest result = .go header rest') :
    rest' = rest ∧ result = (.kNoError, header) := by
  unfold Block.ofResult at h
  split at h
  · cases h
    exact ⟨rfl, rfl⟩
  cases h

theorem Block.ofResult_fail (h : Block.ofResult rest result = .fail err header) :
    result = (err, header) ∧ err ≠ .kNoError := by
  obtain ⟨code, header'⟩ := result
  by_cases hok : code = .kNoError
  · subst hok
    cases h
  have hfail : Block.ofResult rest (code, header') = .fail code header' := by
    cases code <;> first | rfl | contradiction
  rw [hfail] at h
  cases h
  exact ⟨rfl, hok⟩

/-! ## Characters as a machine -/

/-- What a character does, by its code. -/
def reaction : HttpErrorCode × σ → Reaction σ HttpErrorCode
  | (.kNoError, header) => .next header
  | (.kIncomplete, header) => .stop header
  | (err, _) => .fail err

variable {char : σ → UInt8 → HttpErrorCode × σ}

def react (char : σ → UInt8 → HttpErrorCode × σ) (header : σ) (c : UInt8) :
    Reaction σ HttpErrorCode :=
  reaction (char header c)

/-- A character that is looked at alone. -/
def Block.ofChar (rest : Bytes) : HttpErrorCode × σ → Block σ
  | (.kNoError, header) => .go header rest
  | (.kIncomplete, header) => .done header rest
  | (err, header) => .fail err header

theorem Block.ofResult_eq_ofChar (h : result.1 ≠ .kIncomplete) :
    Block.ofResult rest result = Block.ofChar rest result := by
  obtain ⟨err, header⟩ := result
  cases err <;> first | rfl | exact absurd rfl h

theorem react_next (h : char header c = (.kNoError, header')) :
    react char header c = .next header' := by
  rw [react, h]
  rfl

theorem runs_ofChar (header : σ) (c : UInt8) (rest : Bytes) :
    (Block.ofChar rest (char header c)).Runs (react char) header (c :: rest) := by
  have hreact : react char header c = reaction (char header c) := rfl
  generalize char header c = step at hreact ⊢
  obtain ⟨err, header'⟩ := step
  by_cases hok : err = .kNoError
  · subst hok
    refine ⟨[c], rfl, ?_⟩
    rw [Lib.feed_next hreact, Lib.feed_nil, Progress.shift_more]
  by_cases hdone : err = .kIncomplete
  · subst hdone
    exact ⟨[c], rfl, Lib.feed_stop hreact []⟩
  have hfail : reaction (err, header') = .fail err := by
    cases err <;> first | rfl | contradiction
  have hblock : Block.ofChar rest (err, header') = .fail err header' := by
    cases err <;> first | rfl | contradiction
  rw [hblock]
  exact Lib.feed_fail (hreact.trans hfail) rest

variable {data : Bytes}

/-- A turn that collects a word and looks at the character behind it. -/
theorem runs_word {block : Block σ}
    (hword : feed (react char) header (data.takeWhile p) = .more header')
    (hblock : block = match data.dropWhile p with | [] => .go header' [] | c :: rest => .ofChar rest (char header' c))
    : block.Runs (react char) header data := by
  refine .word hword ?_
  rw [hblock]
  cases data.dropWhile p with
  | nil => exact .nil header'
  | cons c rest => exact runs_ofChar header' c rest

variable {turn : UInt8 → Bytes → Block σ}

theorem runs_char (hturn : ∀ c rest, turn c rest = .ofChar rest (char header c)) :
    (match data with
      | [] => .go header []
      | c :: rest => turn c rest : Block σ).Runs (react char) header data := by
  cases data with
  | nil => exact .nil header
  | cons c rest =>
  simp only [hturn]
  exact runs_ofChar header c rest

@[simp] theorem Block.ofChar_ite [Decidable c] : Block.ofChar rest (if c then result else result') =
      if c then Block.ofChar rest result else Block.ofChar rest result' :=
  apply_ite _ _ _ _

theorem runs_skip (hskip : ∀ c, p c = true → char header c = (.kNoError, header))
    (hturn : ∀ c rest, p c = false → turn c rest = .ofChar rest (char header c)) :
    (match data.dropWhile p with
      | [] => .go header []
      | c :: rest => turn c rest : Block σ).Runs (react char) header data := by
  refine runs_word (Lib.feed_takeWhile_skip data fun c hc => react_next (hskip c hc)) ?_
  cases hdrop : data.dropWhile p with
  | nil => rfl
  | cons c rest => exact hturn c rest (Lib.not_of_dropWhile hdrop)

theorem runs_spaces (hskip : char header SP = (.kNoError, header))
    (hturn : ∀ c rest, c ≠ SP → turn c rest = .ofChar rest (char header c)) :
    (match data.dropWhile (· == SP) with
      | [] => .go header []
      | c :: rest => turn c rest : Block σ).Runs (react char) header data :=
  runs_skip (fun _ hc => beq_iff_eq.1 hc ▸ hskip) fun c rest hc =>
    hturn c rest (beq_eq_false_iff_ne.1 hc)

theorem runs_collect {f : Bytes → σ} {word data : Bytes}
    (hkeep : ∀ word c, p c = true → char (f word) c = (.kNoError, f (word ++ [c])))
    (hturn : ∀ c rest, p c = false → turn c rest = .ofChar rest (char (f (word ++ data.takeWhile p)) c))
    :
    (match data.dropWhile p with
      | [] => .go (f (word ++ data.takeWhile p)) []
      | c :: rest => turn c rest : Block σ).Runs (react char) (f word) data := by
  refine runs_word (Lib.feed_takeWhile_collect data word fun word c hc =>
    react_next (hkeep word c hc)) ?_
  cases hdrop : data.dropWhile p with
  | nil => rfl
  | cons c rest => exact hturn c rest (Lib.not_of_dropWhile hdrop)

/-! ## Keys -/

def keyChar (c : UInt8) : Bool := c != COLON && c != CR && c != LF

theorem keyChar_iff : keyChar c = true ↔ ¬ c = COLON ∧ ¬ (c = CR ∨ c = LF) := by
  simp [keyChar, and_assoc]

/-- How both machines read a key: `char` counts its characters, and `block` does not. -/
structure KeyReading (char block : σ → UInt8 → HttpErrorCode × σ) where
  inKey : σ → Prop
  size : σ → Nat
  append : σ → Bytes → σ
  finish : σ → HttpErrorCode × σ
  inKey_append : ∀ {header}, inKey header → ∀ chunk, inKey (append header chunk)
  size_append : ∀ header chunk, size (append header chunk) = size header + chunk.length
  append_nil : ∀ header, append header [] = header
  append_append : ∀ header chunk chunk',
    append (append header chunk) chunk' = append header (chunk ++ chunk')
  char_eq : ∀ {header}, inKey header → ∀ c, char header c =
    if c = COLON then finish header
    else if c = CR ∨ c = LF then (.kBadRequest, header)
    else if 256 ≤ size header then (.kBadRequest, header)
    else (.kNoError, append header [c])
  block_key : ∀ {header}, inKey header → ∀ c, ¬ c = COLON → ¬ (c = CR ∨ c = LF) →
    block header c = (.kNoError, append header [c])
  block_other : ∀ {header c}, (inKey header → c = COLON ∨ c = CR ∨ c = LF) →
    block header c = char header c
  finish_ne : ∀ header, (finish header).1 ≠ .kIncomplete
  finish_long : ∀ {header}, 256 < size header → ∃ header', finish header = (.kBadRequest, header')

namespace KeyReading

variable {block : σ → UInt8 → HttpErrorCode × σ} (K : KeyReading char block)

theorem failsSooner :
    Lib.FailsSooner (react char) (react block) fun header => K.inKey header ∧ 256 < K.size header where
  step header c := by
    by_cases hkey : K.inKey header → c = COLON ∨ c = CR ∨ c = LF
    · rw [react, react, K.block_other hkey]
      exact .inl rfl
    obtain ⟨hin, hc⟩ := Classical.not_imp.1 hkey
    obtain ⟨hcolon, hline⟩ := not_or.1 hc
    rw [react, react, K.block_key hin c hcolon hline, K.char_eq hin, if_neg hcolon, if_neg hline]
    by_cases hlong : 256 ≤ K.size header
    · rw [if_pos hlong]
      refine .inr ⟨⟨.kBadRequest, rfl⟩, _, rfl, K.inKey_append hin _, ?_⟩
      rw [K.size_append, List.length_singleton]
      exact Nat.lt_succ_of_le hlong
    rw [if_neg hlong]
    exact .inl rfl
  doomed {header c} hlong := by
    obtain ⟨hin, hlen⟩ := hlong
    by_cases hcolon : c = COLON
    · obtain ⟨header', hfinish⟩ := K.finish_long hlen
      rw [react, K.block_other fun _ => .inl hcolon, K.char_eq hin, if_pos hcolon, hfinish]
      exact .inl ⟨_, rfl⟩
    by_cases hline : c = CR ∨ c = LF
    · rw [react, K.block_other fun _ => .inr hline, K.char_eq hin, if_neg hcolon, if_pos hline]
      exact .inl ⟨_, rfl⟩
    rw [react, K.block_key hin c hcolon hline]
    refine .inr ⟨_, rfl, K.inKey_append hin _, ?_⟩
    rw [K.size_append]
    omega

theorem runs {data : Bytes} (hin : K.inKey header) : (match data.dropWhile keyChar with
      | [] => .go (K.append header (data.takeWhile keyChar)) [] | c :: rest =>
        if c ≠ COLON then .fail .kBadRequest (K.append header (data.takeWhile keyChar))
        else .ofResult rest (K.finish (K.append header (data.takeWhile keyChar))) : Block σ).Runs
      (react block) header data := by
  have hkeep (word : Bytes) (c : UInt8) (hc : keyChar c = true) :
      react block (K.append header word) c = .next (K.append header (word ++ [c])) := by
    obtain ⟨hcolon, hline⟩ := keyChar_iff.1 hc
    rw [← K.append_append]
    exact react_next (K.block_key (K.inKey_append hin word) c hcolon hline)
  have hword := Lib.feed_takeWhile_collect data [] hkeep
  rw [K.append_nil] at hword
  refine runs_word hword ?_
  rw [List.nil_append]
  have hin' := K.inKey_append hin (data.takeWhile keyChar)
  cases hdrop : data.dropWhile keyChar with
  | nil => rfl
  | cons c rest =>
  simp only
  have hc : ¬ (¬ c = COLON ∧ ¬ (c = CR ∨ c = LF)) := fun h =>
    Bool.eq_false_iff.1 (Lib.not_of_dropWhile hdrop) (keyChar_iff.2 h)
  by_cases hcolon : c = COLON
  · rw [K.block_other fun _ => .inl hcolon, K.char_eq hin', if_pos hcolon]
    exact (if_neg (not_not.2 hcolon)).trans (Block.ofResult_eq_ofChar (K.finish_ne _))
  have hline : c = CR ∨ c = LF := not_not.1 fun h => hc ⟨hcolon, h⟩
  rw [K.block_other fun _ => .inr hline, K.char_eq hin', if_neg hcolon, if_pos hline]
  exact if_pos hcolon

end KeyReading

/-! ## The loops are runs -/

/-- What holds of a header while it is parsed, and not when it is complete. -/
structure Open (char : σ → UInt8 → HttpErrorCode × σ) (P : σ → Prop) : Prop where
  next : ∀ {header c header'}, P header → char header c = (.kNoError, header') → P header'
  stop : ∀ {header c header'}, P header → char header c = (.kIncomplete, header') → ¬ P header'
  fail : ∀ {header c err header'}, P header → char header c = (err, header') →
    err ≠ .kNoError → err ≠ .kIncomplete → P header'

theorem open_of_done {Done : σ → Prop}
    (hchar : ∀ {header}, ¬ Done header → ∀ c,
      (char header c).1 = .kIncomplete ↔ Done (char header c).2) :
    Open char fun header => ¬ Done header where
  next {header c header'} hopen h := by
    have hdone := hchar hopen c
    rw [h] at hdone
    exact fun hst => nomatch hdone.2 hst
  stop {header c header'} hopen h := by
    have hdone := hchar hopen c
    rw [h] at hdone
    exact not_not.2 (hdone.1 rfl)
  fail {header c err header'} hopen h _ hcode := by
    have hdone := hchar hopen c
    rw [h] at hdone
    exact fun hst => hcode (hdone.2 hst)

theorem reaction_next (h : reaction step = .next header) : step = (.kNoError, header) := by
  unfold reaction at h
  split at h <;> cases h
  rfl

theorem reaction_stop (h : reaction step = .stop header) : step = (.kIncomplete, header) := by
  unfold reaction at h
  split at h <;> cases h
  rfl

theorem code_of_failed {data : Bytes}
    (h : feed (react char) header data = .failed err) : err ≠ .kNoError ∧ err ≠ .kIncomplete := by
  obtain ⟨before, c, -, hfail⟩ :=
    Lib.feed_failed_invariant (P := fun _ => True) (fun _ _ => trivial) trivial h
  unfold react reaction at hfail
  split at hfail
  · cases hfail
  · cases hfail
  next hok hdone _ =>
  cases hfail
  exact ⟨hok, hdone⟩

/-- How a parser reports a run; the header is left open where it has failed. -/
def Reports (P : σ → Prop) (progress : Progress σ HttpErrorCode) (more : HttpErrorCode × Int)
    (consumed : Nat) (result : (HttpErrorCode × Int) × σ) : Prop :=
  match progress with
  | .more header => P header ∧ result = (more, header)
  | .stopped header n =>
    ¬ P header ∧ result = ((HttpErrorCode.kNoError, ((consumed + n : Nat) : Int)), header)
  | .failed err => ∃ header, P header ∧ result = ((err, -1), header)

theorem Reports.shift {result : (HttpErrorCode × Int) × σ}
    (h : Reports P progress more (consumed + n) result) :
    Reports P (progress.shift n) more consumed result := by
  cases progress with
  | more header => exact h
  | failed err => exact h
  | stopped header m =>
  obtain ⟨hdone, rfl⟩ := h
  exact ⟨hdone, by rw [Nat.add_assoc]⟩

section
variable {P : σ → Prop} (H : Open char P)
include H

theorem Open.next_of_react (hhdr : P header)
    (h : react char header c = .next header') : P header' :=
  H.next hhdr (reaction_next h)

theorem Open.stop_of_feed {data : Bytes} (hhdr : P header)
    (h : feed (react char) header data = .stopped header' n) : ¬ P header' := by
  obtain ⟨front, c, back, before, -, -, -, hbefore, hstop⟩ :=
    Lib.feed_stopped_invariant H.next_of_react hhdr h
  exact H.stop hbefore (reaction_stop hstop)

theorem fromStringLoop_reports (hhdr : P header) (consumed : Nat) (str : Bytes) :
    Reports P (feed (react char) header str) (.kNoError, 0) consumed
      (fromStringLoop char header consumed str) := by
  induction str generalizing header consumed with
  | nil => exact ⟨hhdr, rfl⟩
  | cons c str ih =>
  rw [fromStringLoop, feed]
  have hreact : react char header c = reaction (char header c) := rfl
  rw [hreact]
  cases hchar : char header c with
  | mk err header' =>
  by_cases hok : err = .kNoError
  · subst hok
    exact (ih (H.next hhdr hchar) (consumed + 1)).shift
  by_cases hdone : err = .kIncomplete
  · subst hdone
    exact ⟨H.stop hhdr hchar, rfl⟩
  have hopen := H.fail hhdr hchar hok hdone
  cases err <;> first | exact ⟨header', hopen, rfl⟩ | contradiction

theorem fromIOVecLoop_reports {scanner : Scanner UInt8 σ HttpErrorCode}
    (hscanner : scanner.Refines (react char) P) (hhdr : P header) (consumed : Nat)
    (iovecs : IoVecs) : Reports P (feed (react char) header iovecs.flatten)
      (.kIncomplete, (consumed + iovecs.flatten.length : Nat)) consumed
      (fromIOVecLoop scanner.scan header consumed iovecs) := by
  induction iovecs generalizing header consumed with
  | nil => exact ⟨hhdr, rfl⟩
  | cons iov iovecs ih =>
  have hruns := hscanner.runs_scan hhdr iov
  rw [List.flatten_cons, fromIOVecLoop]
  cases hscan : scanner.scan header iov with
  | go header' rest =>
    rw [hscan] at hruns
    obtain ⟨front, hiov, hfront⟩ := hruns
    rw [scanner.scan_go hscan, List.append_nil] at hiov
    subst hiov
    rw [Lib.feed_append_of_more hfront, List.length_append, ← Nat.add_assoc]
    exact (ih (Lib.feed_more_invariant H.next_of_react hhdr hfront) _).shift
  | done header' rest =>
    rw [hscan] at hruns
    obtain ⟨front, hiov, hfront⟩ := hruns
    have hlen : iov.length - rest.length = front.length := by
      rw [hiov, List.length_append]
      omega
    rw [hiov, List.append_assoc, Lib.feed_append_of_stopped hfront, ← hiov]
    simp only [hlen]
    exact ⟨H.stop_of_feed hhdr hfront, rfl⟩
  | fail err header' =>
  rw [hscan] at hruns
  rw [Lib.feed_append_of_failed hruns]
  exact ⟨header', hscanner.scan_fail hhdr hscan, rfl⟩

end

/-- Two parsers of machines that complete a header together. -/
theorem Reports.agree {result : (HttpErrorCode × Int) × σ}
    (h : Reports P progress more consumed result) (h' : Reports P progress' more' consumed result')
    (hiff : ∀ header n, progress = .stopped header n ↔ progress' = .stopped header n) :
    ¬ P result.2 ∧ result' = result ∨ P result.2 ∧ P result'.2 := by
  have hopen : ∀ {progress : Progress σ HttpErrorCode} {more : HttpErrorCode × Int}
      {result : (HttpErrorCode × Int) × σ}, Reports P progress more consumed result →
      (∀ header n, progress ≠ .stopped header n) → P result.2 := by
    intro progress more result h hne
    cases progress with
    | stopped header n => exact absurd rfl (hne header n)
    | more header =>
      obtain ⟨hhdr, rfl⟩ := h
      exact hhdr
    | failed err =>
    obtain ⟨header, hhdr, rfl⟩ := h
    exact hhdr
  by_cases hstopped : ∃ header n, progress = .stopped header n
  · obtain ⟨header, n, rfl⟩ := hstopped
    rw [(hiff header n).1 rfl] at h'
    obtain ⟨hdone, rfl⟩ := h
    obtain ⟨-, rfl⟩ := h'
    exact .inl ⟨hdone, rfl⟩
  have hne : ∀ header n, progress ≠ .stopped header n :=
    fun header n heq => hstopped ⟨header, n, heq⟩
  exact .inr ⟨hopen h hne, hopen h' fun header n heq => hne header n ((hiff header n).2 heq)⟩

end Galay.Http
