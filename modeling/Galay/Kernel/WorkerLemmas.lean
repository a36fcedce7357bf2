import Mathlib.Data.List.Perm.Basic
import Galay.Kernel.WorkerState

/-!
# What the calls on a worker move

One lemma for each call says which entries it moves and from where to where.
-/

namespace Galay.Kernel

open List

namespace IOSchedulerWorkerState

variable {α : Type*} {worker : IOSchedulerWorkerState α} {dequeue : BulkDequeue α}

/-! ## Pushing -/

theorem pushInjected_eq (tasks : List α) (worker : IOSchedulerWorkerState α)
    (hroom : worker.localRing.contents.length + tasks.length ≤ 256) :
    ∃ ring, pushInjected tasks worker = { worker with localRing := ring } ∧
      ring.contents = worker.localRing.contents ++ tasks := by
  induction tasks generalizing worker with
  | nil => exact ⟨worker.localRing, rfl, (append_nil _).symm⟩
  | cons task rest ih =>
  rw [length_cons] at hroom
  rcases worker.localRing.push_back_cases task with ⟨-, hfull⟩ | ⟨ring, hpush, -, hring⟩
  · omega
  have hnext : worker.pushOrFallback task = { worker with localRing := ring } := by
    unfold pushOrFallback
    rw [hpush]
  obtain ⟨ring', heq, hcont⟩ := ih { worker with localRing := ring } (by
    rw [hring, length_append, length_singleton]
    omega)
  refine ⟨ring', ?_, ?_⟩
  · rw [pushInjected, hnext, heq]
  rw [hcont, hring, append_assoc, singleton_append]

theorem pushResumed_eq (tasks : List α) (ring : ChaseLevTaskRing α)
    (hroom : ring.contents.length + tasks.length ≤ 256) :
    ∃ ring', pushResumed tasks ring = (ring', []) ∧ ring'.contents = ring.contents ++ tasks := by
  induction tasks generalizing ring with
  | nil => exact ⟨ring, rfl, (append_nil _).symm⟩
  | cons task rest ih =>
  rw [length_cons] at hroom
  rcases ring.push_back_cases task with ⟨-, hfull⟩ | ⟨next, hpush, -, hring⟩
  · omega
  obtain ⟨ring', heq, hcont⟩ := ih next (by
    rw [hring, length_append, length_singleton]
    omega)
  refine ⟨ring', ?_, ?_⟩
  · rw [pushResumed, hpush]
    exact heq
  rw [hcont, hring, append_assoc, singleton_append]

/-- A deferred entry goes to the ring, or to the inject queue where the ring is full. -/
theorem enqueueDeferred_cases (worker : IOSchedulerWorkerState α) (task : α) :
    (∃ ring, worker.enqueueDeferred task = { worker with localRing := ring } ∧
      ring.contents = worker.localRing.contents ++ [task]) ∨
    worker.enqueueDeferred task = worker.fallbackToInject task ∧
      worker.localRing.contents.length = 256 := by
  unfold enqueueDeferred
  rw [ChaseLevTaskRing.remainingCapacity_eq]
  have hle := worker.localRing.length_contents_le
  by_cases hfull : 256 - worker.localRing.contents.length = 0
  · rw [if_pos hfull]
    exact .inr ⟨rfl, by omega⟩
  rw [if_neg hfull]
  unfold pushOrFallback
  rcases worker.localRing.push_back_cases task with ⟨-, hnone⟩ | ⟨ring, hpush, -, hring⟩
  · omega
  rw [hpush]
  exact .inl ⟨ring, rfl, hring⟩

/-! ## Draining -/

/-- What a drain moves into the ring: entries of the inject queue and tasks to resume. -/
structure Drained (worker : IOSchedulerWorkerState α) (taken batch : List α)
    (worker' : IOSchedulerWorkerState α) : Prop where
  inject : (taken ++ worker'.readyInjectQueue).Perm worker.readyInjectQueue
  resume : batch ++ worker'.readyResumeLocal ++ worker'.readyResumeQueue.chain.reverse =
    worker.readyResumeLocal ++ worker.readyResumeQueue.chain.reverse
  ring : worker'.localRing.contents =
    worker.localRing.contents ++ taken.reverse ++ batch.reverse
  outstanding : worker'.injectedOutstanding =
    worker.injectedOutstanding - taken.length - batch.length
  slot : worker'.readyLifoSlot = worker.readyLifoSlot
  buffer : worker'.readyInjectBufferSize = worker.readyInjectBufferSize
  taken_length : taken.length =
    min (worker.drainTarget (256 - worker.localRing.contents.length))
      worker.readyInjectQueue.length
  batch_length : batch.length =
    min (256 - worker.localRing.contents.length - taken.length)
      (if worker.readyResumeLocal = [] then worker.readyResumeQueue.chain.length
      else worker.readyResumeLocal.length)

theorem drainTarget_le (remaining : Nat) : worker.drainTarget remaining ≤ remaining := by
  unfold drainTarget
  simp only
  split_ifs <;> omega

variable (worker)

theorem drainInjectQueue_spec (dequeue : BulkDequeue α)
    {remaining : Nat} (hrem : remaining = 256 - worker.localRing.contents.length) :
    ∃ taken rest ring flag, worker.drainInjectQueue dequeue remaining = (taken.length, { worker with
          readyInjectQueue := rest
          localRing := ring
          ownerDrainedInjectedOnce := flag
          injectedOutstanding := worker.injectedOutstanding - taken.length }) ∧
      (taken ++ rest).Perm worker.readyInjectQueue ∧
      taken.length = min (worker.drainTarget remaining) worker.readyInjectQueue.length ∧
      ring.contents = worker.localRing.contents ++ taken.reverse := by
  have hperm := dequeue.perm worker.readyInjectQueue (worker.drainTarget remaining)
  have hlen := dequeue.length worker.readyInjectQueue (worker.drainTarget remaining)
  have hle := worker.drainTarget_le remaining
  have hfull := worker.localRing.length_contents_le
  unfold drainInjectQueue
  revert hperm hlen
  generalize dequeue.dequeue worker.readyInjectQueue (worker.drainTarget remaining) = split
  obtain ⟨taken, rest⟩ := split
  intro hperm hlen
  simp only at hperm hlen ⊢
  have hroom : worker.localRing.contents.length + taken.reverse.length ≤ 256 := by
    rw [length_reverse]
    omega
  by_cases hcount : 0 < taken.length
  · rw [if_pos hcount]
    obtain ⟨ring, heq, hcont⟩ := pushInjected_eq taken.reverse
      { worker with
        readyInjectQueue := rest
        ownerDrainedInjectedOnce := true
        injectedOutstanding := worker.injectedOutstanding - taken.length } hroom
    exact ⟨taken, rest, ring, true, by rw [heq], hperm, hlen, hcont⟩
  rw [if_neg hcount]
  obtain ⟨ring, heq, hcont⟩ := pushInjected_eq taken.reverse
    { worker with readyInjectQueue := rest } hroom
  have hzero : worker.injectedOutstanding - taken.length = worker.injectedOutstanding := by omega
  exact ⟨taken, rest, ring, worker.ownerDrainedInjectedOnce, by rw [heq, hzero], hperm, hlen,
    hcont⟩

theorem drainResumeQueue_spec (limit : Nat)
    (hlimit : worker.localRing.contents.length + limit ≤ 256) :
    ∃ batch left chain ring, worker.drainResumeQueue limit = (batch.length, { worker with
          localRing := ring
          readyResumeLocal := left
          readyResumeQueue := { worker.readyResumeQueue with chain } }) ∧
      batch ++ left ++ chain.reverse =
        worker.readyResumeLocal ++ worker.readyResumeQueue.chain.reverse ∧
      batch.length = min limit (if worker.readyResumeLocal = [] then
        worker.readyResumeQueue.chain.length else worker.readyResumeLocal.length) ∧
      ring.contents = worker.localRing.contents ++ batch.reverse := by
  unfold drainResumeQueue
  have hpush : ∀ tasks : List α, ∃ ring, pushResumed (tasks.take limit).reverse worker.localRing =
      (ring, []) ∧ ring.contents = worker.localRing.contents ++ (tasks.take limit).reverse := by
    intro tasks
    refine pushResumed_eq _ _ ?_
    rw [length_reverse, length_take]
    omega
  by_cases hlocal : worker.readyResumeLocal = []
  · simp only [if_pos hlocal]
    obtain ⟨ring, heq, hcont⟩ := hpush worker.readyResumeQueue.chain.reverse
    rw [heq]
    refine ⟨worker.readyResumeQueue.chain.reverse.take limit,
      worker.readyResumeQueue.chain.reverse.drop limit, [], ring, ?_, ?_, ?_, hcont⟩
    · simp only [length_reverse, length_nil, Nat.sub_zero, reverse_nil, nil_append]
    · rw [take_append_drop, reverse_nil, append_nil, hlocal, nil_append]
    rw [length_take, length_reverse]
  simp only [if_neg hlocal]
  obtain ⟨ring, heq, hcont⟩ := hpush worker.readyResumeLocal
  rw [heq]
  refine ⟨worker.readyResumeLocal.take limit, worker.readyResumeLocal.drop limit,
    worker.readyResumeQueue.chain, ring, ?_, ?_, length_take, hcont⟩
  · simp only [length_reverse, length_nil, Nat.sub_zero, reverse_nil, nil_append]
  rw [take_append_drop]

theorem drainInjected_spec (dequeue : BulkDequeue α) :
    ∃ taken batch, worker.Drained taken batch (worker.drainInjected dequeue).2 ∧
      (worker.drainInjected dequeue).1 = taken.length + batch.length := by
  have hfull := worker.localRing.length_contents_le
  unfold drainInjected
  rw [ChaseLevTaskRing.remainingCapacity_eq]
  by_cases hnone : worker.readyInjectBufferSize = 0 ∨ 256 - worker.localRing.contents.length = 0
  · have hpos := worker.readyInjectBufferSize_pos
    have hzero : 256 - worker.localRing.contents.length = 0 := by omega
    have hle := worker.drainTarget_le 0
    simp only [if_pos hnone]
    refine ⟨[], [], ⟨.refl _, rfl, ?_, rfl, rfl, rfl, ?_, ?_⟩, rfl⟩
    · simp only [reverse_nil, append_nil]
    · rw [hzero, length_nil]
      omega
    rw [hzero, length_nil]
    omega
  simp only [if_neg hnone]
  obtain ⟨taken, rest, ring, flag, hinject, hperm, htaken, hring⟩ :=
    worker.drainInjectQueue_spec dequeue rfl
  have hle := worker.drainTarget_le (256 - worker.localRing.contents.length)
  simp only [hinject]
  by_cases hmore : taken.length < 256 - worker.localRing.contents.length
  · simp only [if_pos hmore]
    obtain ⟨batch, left, chain, ring', hresume, hsame, hbatch, hring'⟩ :=
      drainResumeQueue_spec
        { worker with
          readyInjectQueue := rest
          localRing := ring
          ownerDrainedInjectedOnce := flag
          injectedOutstanding := worker.injectedOutstanding - taken.length }
        (256 - worker.localRing.contents.length - taken.length) (by
          simp only [hring, length_append, length_reverse]
          omega)
    simp only [hresume]
    refine ⟨taken, batch, ?_, rfl⟩
    rw [hring] at hring'
    have hzero : ¬ 0 < batch.length → worker.injectedOutstanding - taken.length =
        worker.injectedOutstanding - taken.length - batch.length := by
      intro hcount
      omega
    by_cases hcount : 0 < batch.length
    · simp only [if_pos hcount]
      split_ifs
      · exact ⟨hperm, hsame, hring', rfl, rfl, rfl, htaken, hbatch⟩
      exact ⟨hperm, hsame, hring', rfl, rfl, rfl, htaken, hbatch⟩
    simp only [if_neg hcount]
    split_ifs
    · exact ⟨hperm, hsame, hring', hzero hcount, rfl, rfl, htaken, hbatch⟩
    · exact ⟨hperm, hsame, hring', hzero hcount, rfl, rfl, htaken, hbatch⟩
    exact ⟨hperm, hsame, hring', hzero hcount, rfl, rfl, htaken, hbatch⟩
  have hring' : ring.contents = worker.localRing.contents ++ taken.reverse ++ [].reverse := by
    rw [reverse_nil, append_nil]
    exact hring
  have hbatch : ([] : List α).length = min (256 - worker.localRing.contents.length - taken.length)
      (if worker.readyResumeLocal = [] then worker.readyResumeQueue.chain.length
      else worker.readyResumeLocal.length) := by
    rw [length_nil]
    omega
  simp only [if_neg hmore, Nat.lt_irrefl, if_false]
  refine ⟨taken, [], ?_, rfl⟩
  split_ifs
  · exact ⟨hperm, rfl, hring', rfl, rfl, rfl, htaken, hbatch⟩
  · exact ⟨hperm, rfl, hring', rfl, rfl, rfl, htaken, hbatch⟩
  exact ⟨hperm, rfl, hring', rfl, rfl, rfl, htaken, hbatch⟩

end IOSchedulerWorkerState

end Galay.Kernel
