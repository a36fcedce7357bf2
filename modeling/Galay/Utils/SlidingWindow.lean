import Galay.Lib.WrappedIndex

/-!
# The sliding window limiter (`galay-utils/tool/rate_limiter.hpp`)

Every slot holds the time of the last request that it granted. A call looks for a slot whose time is
out of the window, from a slot on that moves with the calls. Slots are given again only when their
time is out of the window, so that a window never holds more grants than there are slots. A call that
looks at every slot is refused only if the window holds as many.
-/

namespace Galay.Utils

open List

/-- A value as it is stored in sixty-four bits with a sign. -/
def toInt64 (value : Int) : Int := Int.bmod value (2 ^ 64)

theorem toInt64_eq (hmin : -2 ^ 63 ≤ value) (hmax : value < 2 ^ 63) :
    toInt64 value = value := Int.bmod_eq_of_le (by omega) (by omega)

/-- Ticks of a nanosecond. -/
def nonNegativeSteadyTicks (milliseconds : Int) : Int :=
  if milliseconds ≤ 0 then 0 else toInt64 (milliseconds * 10 ^ 6)

structure SlidingWindowLimiter where
  maxRequests : Nat
  windowTicks : Int
  requests : List Int
  probeCursor : UInt64 := 0

namespace SlidingWindowLimiter

open Lib

def new (maxRequests : Nat) (windowSize : Int) : SlidingWindowLimiter where
  maxRequests
  windowTicks := nonNegativeSteadyTicks windowSize
  requests := List.replicate maxRequests (-2 ^ 63)

/-- The loop of `tryAcquire` from an offset on: the slots after a grant. -/
def probe (limiter : SlidingWindowLimiter) (now cutoff : Int) (start : UInt64) :
    (offset remaining : Nat) → Option (List Int)
  | _, 0 => none
  | offset, remaining + 1 =>
    let index := (start + UInt64.ofNat offset).toNat % limiter.maxRequests
    match limiter.requests[index]? with
    | some observed =>
      if observed < cutoff then some (limiter.requests.set index now)
      else limiter.probe now cutoff start (offset + 1) remaining
    | none => none

/-- A call whose reading of the clock is `now`. -/
def tryAcquire (limiter : SlidingWindowLimiter) (now : Int) : Bool × SlidingWindowLimiter :=
  if limiter.maxRequests = 0 then (false, limiter)
  else
    let cutoff := toInt64 (now - limiter.windowTicks)
    let start := limiter.probeCursor
    let limiter := { limiter with probeCursor := start + 1 }
    match limiter.probe now cutoff start 0 limiter.maxRequests with
    | some requests => (true, { limiter with requests })
    | none => (false, limiter)

/-- Calls at given readings of the clock, each with what it returns. -/
def run (limiter : SlidingWindowLimiter) : List Int → List (Int × Bool) × SlidingWindowLimiter
  | [] => ([], limiter)
  | now :: readings =>
    let (granted, limiter) := limiter.tryAcquire now
    let (history, limiter) := limiter.run readings
    ((now, granted) :: history, limiter)

/-- The times of the calls that were granted. -/
def granted (history : List (Int × Bool)) : List Int :=
  history.filterMap fun (time, granted) => if granted then some time else none

/-- The number of calls that were granted between two times. -/
def grantsWithin (history : List (Int × Bool)) (first last : Int) : Nat :=
  (granted history).countP fun time => first ≤ time ∧ time ≤ last

/-! ## The probe -/

variable {limiter : SlidingWindowLimiter} {now cutoff : Int} {start : UInt64}

/-- A grant takes a slot whose time is out of the window. -/
theorem probe_some {requests : List Int}
    (h : limiter.probe now cutoff start offset remaining = some requests) :
    ∃ index observed, limiter.requests[index]? = some observed ∧ observed < cutoff ∧
      requests = limiter.requests.set index now := by
  induction remaining generalizing offset with
  | zero => cases h
  | succ remaining ih =>
  rw [probe] at h
  split at h
  · next observed hobserved =>
    split at h
    · next hlt =>
      cases h
      exact ⟨_, observed, hobserved, hlt, rfl⟩
    exact ih h
  cases h

/-- A refusal has looked at its slots, and found each in the window. -/
theorem probe_none (hpos : 0 < limiter.maxRequests)
    (hlen : limiter.requests.length = limiter.maxRequests)
    (h : limiter.probe now cutoff start offset remaining = none)
    (hoffset : offset ≤ j) (hj : j < offset + remaining) :
    ∃ observed, limiter.requests[(start + UInt64.ofNat j).toNat % limiter.maxRequests]? =
      some observed ∧ cutoff ≤ observed := by
  induction remaining generalizing offset with
  | zero => exact absurd hj (Nat.not_lt_of_le hoffset)
  | succ remaining ih =>
  rw [probe] at h
  split at h
  · next observed hobserved =>
    split at h
    · cases h
    next hle =>
    rcases Nat.eq_or_lt_of_le hoffset with rfl | hlt
    · exact ⟨observed, hobserved, Int.not_lt.1 hle⟩
    exact ih h hlt (by omega)
  next hout =>
  rw [getElem?_eq_none_iff, hlen] at hout
  exact absurd (Nat.mod_lt _ hpos) (Nat.not_lt_of_le hout)

/-! ## Slots and grants -/

/-- The slots hold what a list of grants, each a slot and a time, has left in them: the latest time of
each slot, the times of a slot being further apart than the window. -/
structure Holds (limiter : SlidingWindowLimiter) (grants : List (Nat × Int)) : Prop where
  length_eq : limiter.requests.length = limiter.maxRequests
  slot_lt : ∀ grant ∈ grants, grant.1 < limiter.maxRequests
  apart : grants.Pairwise fun later earlier =>
    later.1 = earlier.1 → earlier.2 + limiter.windowTicks < later.2
  latest : ∀ slot time, limiter.requests[slot]? = some time →
    (time = -2 ^ 63 ∧ ∀ grant ∈ grants, grant.1 ≠ slot) ∨
    ((slot, time) ∈ grants ∧ ∀ grant ∈ grants, grant.1 = slot → grant.2 ≤ time)

theorem holds_new (maxRequests : Nat) (windowSize : Int) :
    (new maxRequests windowSize).Holds [] where
  length_eq := length_replicate
  slot_lt := nofun
  apart := .nil
  latest slot time h := by
    obtain ⟨_, hget⟩ := List.getElem?_eq_some_iff.1 h
    exact .inl ⟨hget.symm.trans (getElem_replicate _), nofun⟩

section

variable {grants : List (Nat × Int)} (h : limiter.Holds grants)
include h

theorem Holds.within_le (first : Int) :
    (grants.map Prod.snd).countP (fun time => first ≤ time ∧ time ≤ first + limiter.windowTicks) ≤
      limiter.maxRequests := by
  have hnodup : ((grants.filter fun grant =>
      first ≤ grant.2 ∧ grant.2 ≤ first + limiter.windowTicks).map Prod.fst).Nodup := by
    rw [List.Nodup, pairwise_map]
    refine (h.apart.filter _).imp_of_mem fun {later earlier} hlater hearlier hapart hsame => ?_
    have hlate := hapart hsame
    have hin := of_decide_eq_true (List.mem_filter.1 hlater).2
    have hin' := of_decide_eq_true (List.mem_filter.1 hearlier).2
    omega
  have hsubset : ((grants.filter fun grant =>
      first ≤ grant.2 ∧ grant.2 ≤ first + limiter.windowTicks).map Prod.fst) ⊆
      List.range limiter.maxRequests := by
    intro slot hslot
    obtain ⟨grant, hgrant, rfl⟩ := List.mem_map.1 hslot
    exact List.mem_range.2 (h.slot_lt grant (List.mem_filter.1 hgrant).1)
  have hle := (subperm_of_subset hnodup hsubset).length_le
  rw [length_map, length_range] at hle
  rwa [countP_map, countP_eq_length_filter]

variable (hlast : ∀ grant ∈ grants, grant.2 ≤ now)
include hlast

/-- Where every slot is in the window that ends with the last grant, the window holds as many grants
as there are slots. -/
theorem Holds.le_within (hcutoff : -2 ^ 63 < cutoff)
    (hfull : ∀ slot < limiter.maxRequests, ∃ time, limiter.requests[slot]? = some time ∧
      cutoff ≤ time) :
    limiter.maxRequests ≤
      (grants.map Prod.snd).countP fun time => cutoff ≤ time ∧ time ≤ now := by
  have hsubset : List.range limiter.maxRequests ⊆
      (grants.filter fun grant => cutoff ≤ grant.2 ∧ grant.2 ≤ now).map Prod.fst := by
    intro slot hslot
    obtain ⟨time, htime, hle⟩ := hfull slot (List.mem_range.1 hslot)
    obtain ⟨rfl, _⟩ | ⟨hmem, _⟩ := h.latest slot time htime
    · exact absurd hle (Int.not_le.2 hcutoff)
    exact List.mem_map.2 ⟨(slot, time),
      List.mem_filter.2 ⟨hmem, decide_eq_true ⟨hle, hlast _ hmem⟩⟩, rfl⟩
  have hle := (subperm_of_subset nodup_range hsubset).length_le
  rw [length_map, length_range] at hle
  rwa [countP_map, countP_eq_length_filter]

/-- A slot whose time is out of the window is given again. -/
theorem Holds.grant (hslot : limiter.requests[slot]? = some observed)
    (hout : observed < now - limiter.windowTicks) :
    { limiter with requests := limiter.requests.set slot now }.Holds ((slot, now) :: grants) where
  length_eq := List.length_set.trans h.length_eq
  slot_lt := by
    intro grant hmem
    rcases List.mem_cons.1 hmem with rfl | hmem
    · rw [← h.length_eq]
      exact (List.getElem?_eq_some_iff.1 hslot).1
    exact h.slot_lt grant hmem
  apart := by
    refine .cons (fun grant hmem hsame => ?_) h.apart
    obtain ⟨_, hnone⟩ | ⟨_, hle⟩ := h.latest slot observed hslot
    · exact absurd hsame.symm (hnone grant hmem)
    have hgrant := hle grant hmem hsame.symm
    dsimp only
    omega
  latest := by
    intro other time htime
    have hlt := (List.getElem?_eq_some_iff.1 hslot).1
    rcases eq_or_ne slot other with rfl | hne
    · rw [getElem?_set_self hlt] at htime
      cases htime
      refine .inr ⟨mem_cons_self, fun grant hmem hsame => ?_⟩
      rcases List.mem_cons.1 hmem with rfl | hmem
      · exact Int.le_refl _
      exact hlast grant hmem
    rw [getElem?_set_ne hne] at htime
    obtain ⟨hempty, hnone⟩ | ⟨hmem, hle⟩ := h.latest other time htime
    · refine .inl ⟨hempty, fun grant hgrant => ?_⟩
      rcases List.mem_cons.1 hgrant with rfl | hgrant
      · exact hne
      exact hnone grant hgrant
    refine .inr ⟨mem_cons_of_mem _ hmem, fun grant hgrant hsame => ?_⟩
    rcases List.mem_cons.1 hgrant with rfl | hgrant
    · exact absurd hsame hne
    exact hle grant hgrant hsame

/-- A refused call that looks at every slot has found as many grants as there are slots. -/
theorem Holds.refused (hpos : 0 < limiter.maxRequests) (hcutoff : -2 ^ 63 < cutoff)
    (hprobe : limiter.probe now cutoff start 0 limiter.maxRequests = none)
    (hall : limiter.maxRequests ∣ 2 ^ 64 ∨ start.toNat + limiter.maxRequests ≤ 2 ^ 64) :
    limiter.maxRequests ≤
      (grants.map Prod.snd).countP fun time => cutoff ≤ time ∧ time ≤ now := by
  refine h.le_within hlast hcutoff fun slot hslot => ?_
  have hperm := (perm_residues_iff hpos start.toNat_lt).2 hall
  obtain ⟨j, hj, hindex⟩ := List.mem_map.1 (hperm.symm.subset (List.mem_range.2 hslot))
  obtain ⟨time, htime, hle⟩ := probe_none hpos h.length_eq hprobe (Nat.zero_le j)
    (by rw [Nat.zero_add]; exact List.mem_range.1 hj)
  rw [UInt64.toNat_add, UInt64.toNat_ofNat', Nat.add_mod_mod, hindex] at htime
  exact ⟨time, htime, hle⟩

theorem Holds.tryAcquire (hcutoff : -2 ^ 63 < now - limiter.windowTicks)
    (hnow : now - limiter.windowTicks < 2 ^ 63) :
    ∃ granted limiter', limiter.tryAcquire now = (granted, limiter') ∧
      limiter'.maxRequests = limiter.maxRequests ∧ limiter'.windowTicks = limiter.windowTicks ∧
      (0 < limiter.maxRequests → limiter'.probeCursor = limiter.probeCursor + 1) ∧
      ((granted = true ∧ ∃ slot, limiter'.Holds ((slot, now) :: grants)) ∨
        granted = false ∧ limiter'.Holds grants ∧ ((limiter.maxRequests ∣ 2 ^ 64 ∨
            limiter.probeCursor.toNat + limiter.maxRequests ≤ 2 ^ 64) →
          limiter.maxRequests ≤ (grants.map Prod.snd).countP fun time =>
            now - limiter.windowTicks ≤ time ∧ time ≤ now)) := by
  rw [SlidingWindowLimiter.tryAcquire]
  split
  · next hzero =>
    refine ⟨false, limiter, rfl, rfl, rfl, fun hpos => ?_, .inr ⟨rfl, h, fun _ => ?_⟩⟩
    · exact absurd hzero (Nat.ne_of_gt hpos)
    rw [hzero]
    exact Nat.zero_le _
  next hne =>
  have hpos := Nat.pos_of_ne_zero hne
  have hadvanced : { limiter with probeCursor := limiter.probeCursor + 1 }.Holds grants :=
    { h with }
  rw [toInt64_eq (Int.le_of_lt hcutoff) hnow]
  dsimp only
  split
  · next requests hprobe =>
    obtain ⟨slot, observed, hslot, hout, rfl⟩ := probe_some hprobe
    exact ⟨true, _, rfl, rfl, rfl, fun _ => rfl,
      .inl ⟨rfl, slot, hadvanced.grant hlast hslot hout⟩⟩
  next hprobe =>
  exact ⟨false, _, rfl, rfl, rfl, fun _ => rfl, .inr ⟨rfl, hadvanced, fun hall =>
    hadvanced.refused hlast hpos hcutoff hprobe hall⟩⟩

end

/-! ## Runs -/

theorem granted_append (history history' : List (Int × Bool)) :
    granted (history ++ history') = granted history ++ granted history' := filterMap_append

theorem countP_of_reverse {grants : List (Nat × Int)}
    (h : grants.map Prod.snd = (granted past).reverse) (first last : Int) :
    (grants.map Prod.snd).countP (fun time => first ≤ time ∧ time ≤ last) =
      grantsWithin past first last := by
  rw [h, countP_reverse, grantsWithin]

/-- What the calls of a run keep: the slots hold the grants of the calls so far, and the refused calls
that look at every slot come behind as many grants as there are slots. -/
theorem Holds.run {grants : List (Nat × Int)} {past : List (Int × Bool)} {readings : List Int}
    (h : limiter.Holds grants) (hpast : grants.map Prod.snd = (granted past).reverse)
    (hcursor : 0 < limiter.maxRequests → limiter.probeCursor.toNat = past.length % 2 ^ 64)
    (hsorted : readings.Pairwise (· ≤ ·))
    (hlast : ∀ grant ∈ grants, ∀ now ∈ readings, grant.2 ≤ now)
    (hclock : ∀ now ∈ readings,
      -2 ^ 63 < now - limiter.windowTicks ∧ now - limiter.windowTicks < 2 ^ 63) :
    ∃ history limiter' grants', limiter.run readings = (history, limiter') ∧
      history.map Prod.fst = readings ∧ limiter'.Holds grants' ∧
      limiter'.maxRequests = limiter.maxRequests ∧ limiter'.windowTicks = limiter.windowTicks ∧
      grants'.map Prod.snd = (granted (past ++ history)).reverse ∧
      ∀ earlier now later, history = earlier ++ (now, false) :: later →
        (limiter.maxRequests ∣ 2 ^ 64 ∨
          (past ++ earlier).length % 2 ^ 64 + limiter.maxRequests ≤ 2 ^ 64) →
        limiter.maxRequests ≤
          grantsWithin (past ++ earlier) (now - limiter.windowTicks) now := by
  induction readings generalizing limiter grants past with
  | nil =>
    refine ⟨[], limiter, grants, rfl, rfl, h, rfl, rfl, ?_, fun earlier now later heq => ?_⟩
    · rwa [append_nil]
    exact absurd heq.symm (append_ne_nil_of_right_ne_nil _ (cons_ne_nil _ _))
  | cons now readings ih =>
  obtain ⟨hle, hsorted⟩ := List.pairwise_cons.1 hsorted
  obtain ⟨hcutoff, hnow⟩ := hclock now mem_cons_self
  have hbefore : ∀ grant ∈ grants, grant.2 ≤ now := fun grant hmem =>
    hlast grant hmem now mem_cons_self
  obtain ⟨grant, next, hcall, hmax, hticks, hadvance, hres⟩ :=
    h.tryAcquire hbefore hcutoff hnow
  obtain ⟨grants', hnext, hpast', hlast'⟩ : ∃ grants', next.Holds grants' ∧
      grants'.map Prod.snd = (granted (past ++ [(now, grant)])).reverse ∧
      ∀ grant ∈ grants', grant.2 ≤ now := by
    obtain ⟨rfl, slot, hnext⟩ | ⟨rfl, hnext, _⟩ := hres
    · refine ⟨_, hnext, ?_, fun grant hmem => ?_⟩
      · rw [granted_append, reverse_append, ← hpast]
        rfl
      rcases List.mem_cons.1 hmem with rfl | hmem
      · exact Int.le_refl _
      exact hbefore grant hmem
    refine ⟨grants, hnext, ?_, hbefore⟩
    rw [granted_append, reverse_append, ← hpast]
    rfl
  have hcursor' : 0 < next.maxRequests →
      next.probeCursor.toNat = (past ++ [(now, grant)]).length % 2 ^ 64 := by
    intro hpos
    rw [hmax] at hpos
    rw [hadvance hpos, UInt64.toNat_add, hcursor hpos, length_append, length_singleton]
    exact Nat.mod_add_mod ..
  obtain ⟨history, limiter', grants'', hrun, hreadings, hheld, hmax', hticks', hgranted,
    hrefused⟩ := ih hnext hpast' hcursor' hsorted
      (fun grant hmem later hlater => Int.le_trans (hlast' grant hmem) (hle later hlater))
      (fun later hlater => by
        rw [hticks]
        exact hclock later (mem_cons_of_mem _ hlater))
  rw [append_assoc, singleton_append] at hgranted
  refine ⟨(now, grant) :: history, limiter', grants'', ?_, ?_, hheld, hmax'.trans hmax,
    hticks'.trans hticks, hgranted, fun earlier time later heq hall => ?_⟩
  · rw [SlidingWindowLimiter.run, hcall]
    dsimp only
    rw [hrun]
  · rw [map_cons, hreadings]
  cases earlier with
  | nil =>
    obtain ⟨rfl, rfl⟩ := Prod.mk.inj (List.cons.inj heq).1
    rw [append_nil] at hall ⊢
    obtain ⟨hgrant, _⟩ | ⟨_, _, hfull⟩ := hres
    · cases hgrant
    rw [← countP_of_reverse hpast]
    refine hfull (hall.imp_right fun hfits => ?_)
    rcases Nat.eq_zero_or_pos limiter.maxRequests with hzero | hpos
    · rw [hzero]
      exact Nat.le_of_lt limiter.probeCursor.toNat_lt
    rwa [hcursor hpos]
  | cons first earlier =>
  obtain ⟨rfl, htail⟩ := List.cons.inj heq
  have hrest := hrefused earlier time later htail
  rw [hmax, hticks, append_assoc, singleton_append] at hrest
  exact hrest hall

theorem windowTicks_new (maxRequests : Nat) (hwin : windowSize * 10 ^ 6 < 2 ^ 63) :
    (new maxRequests windowSize).windowTicks = max 0 windowSize * 10 ^ 6 := by
  show nonNegativeSteadyTicks windowSize = _
  rw [nonNegativeSteadyTicks]
  split
  · next hle => rw [Int.max_eq_left hle, Int.zero_mul]
  next hlt => rw [toInt64_eq (by omega) hwin, Int.max_eq_right (by omega)]

/-- No closed window of a run at readings in order holds more than `maxRequests` grants, and a refused
call ends a window with as many, if the number of slots divides `2 ^ 64` or the probe cursor does not
wrap in the call. -/
theorem window_exact (maxRequests : Nat) (windowSize : Int) (readings : List Int)
    (hwin : windowSize * 10 ^ 6 < 2 ^ 63) (hsorted : readings.Pairwise (· ≤ ·))
    (hclock : ∀ now ∈ readings, -2 ^ 63 < now - max 0 windowSize * 10 ^ 6 ∧ now < 2 ^ 63) :
    (((new maxRequests windowSize).run readings).1.map Prod.fst = readings) ∧
    (∀ first, grantsWithin ((new maxRequests windowSize).run readings).1 first
      (first + max 0 windowSize * 10 ^ 6) ≤ maxRequests) ∧
    ∀ earlier now later,
      ((new maxRequests windowSize).run readings).1 = earlier ++ (now, false) :: later →
      (maxRequests ∣ 2 ^ 64 ∨ earlier.length % 2 ^ 64 + maxRequests ≤ 2 ^ 64) →
      maxRequests ≤ grantsWithin earlier (now - max 0 windowSize * 10 ^ 6) now := by
  have hticks := windowTicks_new maxRequests hwin
  obtain ⟨history, limiter', grants, hrun, hreadings, hheld, hmax, hticks', hgranted, hrefused⟩ :=
    @Holds.run (new maxRequests windowSize) [] [] readings (holds_new ..) rfl (fun _ => rfl)
      hsorted nofun
      fun now hmem => by
        obtain ⟨hlower, hupper⟩ := hclock now hmem
        have hnonneg : 0 ≤ max 0 windowSize := Int.le_max_left ..
        rw [hticks]
        omega
  rw [hrun]
  refine ⟨hreadings, fun first => ?_, fun earlier now later heq hall => ?_⟩
  · have hle := hheld.within_le first
    rw [countP_of_reverse hgranted, hmax, hticks', hticks] at hle
    exact hle
  have hcount := hrefused earlier now later heq hall
  rwa [hticks] at hcount

/-- Two slots: the third of three calls in a window is refused. -/
theorem window_exact_two : ∃ earlier,
    ((new 2 1).run [5, 6, 1000005]).1 = earlier ++ [(1000005, false)] ∧
      2 ≤ grantsWithin earlier 5 1000005 := by
  have hrefused := (window_exact 2 1 [5, 6, 1000005] (by decide) (by decide)
    (by decide)).2.2 [(5, true), (6, true)] 1000005 [] (by decide) (by decide)
  exact ⟨_, by decide, hrefused⟩

/-! ## The wrap of the cursor -/

variable (limiter)

theorem run_cons (now : Int) (readings : List Int) :
    limiter.run (now :: readings) =
      ((now, (limiter.tryAcquire now).1) :: ((limiter.tryAcquire now).2.run readings).1,
        ((limiter.tryAcquire now).2.run readings).2) := rfl

theorem run_append (readings readings' : List Int) :
    limiter.run (readings ++ readings') =
      ((limiter.run readings).1 ++ ((limiter.run readings).2.run readings').1,
        ((limiter.run readings).2.run readings').2) := by
  induction readings generalizing limiter with
  | nil => rfl
  | cons now readings ih => rw [cons_append, run_cons, run_cons, ih, cons_append]

variable {limiter}

/-- Slots that are all in the window stay as they are. -/
theorem probe_full (hfull : ∀ observed ∈ limiter.requests, cutoff ≤ observed)
    (offset remaining : Nat) : limiter.probe now cutoff start offset remaining = none := by
  induction remaining generalizing offset with
  | zero => rfl
  | succ remaining ih =>
  rw [probe]
  split
  · next observed hobserved =>
    rw [if_neg (Int.not_lt.2 (hfull observed (mem_of_getElem? hobserved)))]
    exact ih (offset + 1)
  rfl

/-- Refused calls move the cursor on. -/
theorem run_full (hpos : 0 < limiter.maxRequests)
    (hfull : ∀ observed ∈ limiter.requests, toInt64 (now - limiter.windowTicks) ≤ observed)
    (count : Nat) : limiter.run (List.replicate count now) =
      (List.replicate count (now, false),
        { limiter with probeCursor := limiter.probeCursor + UInt64.ofNat count }) := by
  induction count generalizing limiter with
  | zero =>
    have hzero : limiter.probeCursor + UInt64.ofNat 0 = limiter.probeCursor := UInt64.add_zero _
    rw [replicate_zero, hzero]
    rfl
  | succ count ih =>
  have hcall : limiter.tryAcquire now =
      (false, { limiter with probeCursor := limiter.probeCursor + 1 }) := by
    have hfull' : ∀ observed ∈ { limiter with probeCursor := limiter.probeCursor + 1 }.requests,
      toInt64 (now - limiter.windowTicks) ≤ observed := hfull
    have hprobe : { limiter with probeCursor := limiter.probeCursor + 1 }.probe now
        (toInt64 (now - limiter.windowTicks)) limiter.probeCursor 0 limiter.maxRequests = none :=
      probe_full hfull' 0 limiter.maxRequests
    rw [tryAcquire, if_neg (Nat.ne_of_gt hpos)]
    dsimp only
    rw [hprobe]
  have hcursor : limiter.probeCursor + 1 + UInt64.ofNat count =
      limiter.probeCursor + UInt64.ofNat (count + 1) := by
    rw [UInt64.add_assoc, UInt64.ofNat_add, UInt64.add_comm (UInt64.ofNat count)]
    rfl
  have hrest : { limiter with probeCursor := limiter.probeCursor + 1 }.run
      (List.replicate count now) = (List.replicate count (now, false),
        { limiter with probeCursor := limiter.probeCursor + 1 + UInt64.ofNat count }) :=
    ih hpos hfull
  rw [replicate_succ, run_cons, hcall]
  dsimp only
  rw [hrest, hcursor, replicate_succ]

/-- Readings that fill three slots, and then as many as bring the cursor to the wrap. -/
def wrapReadings (count : Nat) : List Int :=
  [0, 0, 500000, 1000001, 1000001] ++ (List.replicate count 1000001 ++ [1500001])

theorem wrapReadings_sorted (count : Nat) : (wrapReadings count).Pairwise (· ≤ ·) := by
  refine List.pairwise_append.2 ⟨by decide, List.pairwise_append.2 ⟨?_, by decide, ?_⟩, ?_⟩
  · exact List.pairwise_replicate.2 (.inr (Int.le_refl _))
  · intro time htime last hlast
    rw [eq_of_mem_replicate htime, List.mem_singleton.1 hlast]
    decide
  intro time htime later hlater
  have hsmall : time ≤ 1000001 := by
    revert time
    decide
  rcases List.mem_append.1 hlater with hlater | hlater
  · rwa [eq_of_mem_replicate hlater]
  rw [List.mem_singleton.1 hlater]
  omega

/-- Three slots and a window of a million ticks, with calls that bring the cursor to `2 ^ 64 - 1`: the
next probe looks at the first slot twice and not at the last, which is out of the window. -/
theorem refused_of_wrap (count : Nat) (hcount : 5 + UInt64.ofNat count = 18446744073709551615) :
    ∃ earlier, ((new 3 1).run (wrapReadings count)).1 = earlier ++ [(1500001, false)] ∧
      grantsWithin earlier 500001 1500001 = 2 := by
  let limiter : SlidingWindowLimiter := ⟨3, 1000000, [1000001, 1000001, 500000], 5⟩
  have hfirst : (new 3 1).run [0, 0, 500000, 1000001, 1000001] =
      ([(0, true), (0, true), (500000, true), (1000001, true), (1000001, true)], limiter) := by
    rfl
  have hrefused : limiter.run (List.replicate count 1000001) =
      (List.replicate count (1000001, false),
        { limiter with probeCursor := 18446744073709551615 }) := by
    have hrun : limiter.run (List.replicate count 1000001) =
        (List.replicate count (1000001, false),
          { limiter with probeCursor := limiter.probeCursor + UInt64.ofNat count }) :=
      run_full (by decide) (by decide) count
    rwa [show limiter.probeCursor + UInt64.ofNat count = _ from hcount] at hrun
  have hlast : ({ limiter with probeCursor := 18446744073709551615 }.run [1500001]).1 =
      [(1500001, false)] := by
    decide +kernel
  refine ⟨[(0, true), (0, true), (500000, true), (1000001, true), (1000001, true)] ++
    List.replicate count (1000001, false), ?_, ?_⟩
  · rw [wrapReadings, run_append, hfirst, run_append, hrefused, hlast, ← append_assoc]
  have hnone : granted (List.replicate count (1000001, false)) = [] :=
    filterMap_replicate_of_none rfl
  rw [grantsWithin, granted_append, hnone]
  rfl

/-- A call is refused though one of the three slots is out of the window. -/
theorem not_refused_of_full : ¬ ∀ (maxRequests : Nat) (windowSize : Int) (readings : List Int),
    readings.Pairwise (· ≤ ·) → ∀ earlier now later,
      ((new maxRequests windowSize).run readings).1 = earlier ++ (now, false) :: later →
      maxRequests ≤ grantsWithin earlier (now - windowSize * 10 ^ 6) now := by
  intro h
  obtain ⟨earlier, hrun, hcount⟩ := refused_of_wrap 18446744073709551610 (by decide)
  have hle := h 3 1 _ (wrapReadings_sorted _) earlier 1500001 [] hrun
  rw [show (1500001 : Int) - 1 * 10 ^ 6 = 500001 by rfl, hcount] at hle
  exact absurd hle (by decide)

end SlidingWindowLimiter

end Galay.Utils
