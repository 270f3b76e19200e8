import Fracture.Distributed.Answers
import Mathlib.Data.List.TakeWhile

/-!
# Rolling back an allocation

When a cache could not be allocated on all workers, the pipeline frees it
on those whose acknowledgement it had counted before the first failure. A
worker whose acknowledgement comes later, or that was sent its request
before another one could not be reached, keeps the cache. So a failed
allocation leaves nothing behind in exactly the runs in which there is no
such worker.
-/

namespace Fracture

open Effect PagedKvCacheManager

variable {R W : Type}

/-! ## One worker -/

namespace Stage

variable {s : Stage R W} {noMemory : String → Option FractureError} {seqId : ℕ}

/-- The worker has a cache for the sequence. -/
def Holds (seqId : ℕ) (s : Stage R W) : Prop := seqId ∈ s.host.handles

/-- The worker has none, and has memory and a block to start one with. -/
def CanAlloc (noMemory : String → Option FractureError) (seqId : ℕ) (s : Stage R W) : Prop :=
  ¬ s.Holds seqId ∧ noMemory s.nodeId = none ∧ s.host.cache.pool.freeList ≠ []

instance : Decidable (s.Holds seqId) := inferInstanceAs (Decidable (seqId ∈ s.host.handles))

instance : Decidable (s.CanAlloc noMemory seqId) :=
  inferInstanceAs (Decidable (¬ s.Holds seqId ∧ noMemory s.nodeId = none ∧
    s.host.cache.pool.freeList ≠ []))

/-- A worker that is asked for a cache has it afterwards if it had it or
could allocate it. -/
theorem holds_handleCacheAlloc :
    (s.handleCacheAlloc noMemory seqId).2.Holds seqId ↔
      s.Holds seqId ∨ s.CanAlloc noMemory seqId := by
  unfold handleCacheAlloc
  split
  · next handle hlook =>
    have hheld : s.Holds seqId := AList.lookup_isSome.1 (by rw [hlook]; rfl)
    simp only [hheld, true_or]
  · next e hlook hmemory =>
    have hcannot : ¬ s.CanAlloc noMemory seqId := fun hcan => by
      rw [hcan.2.1] at hmemory
      cases hmemory
    simp only [hcannot, or_false]
  · next hlook hmemory =>
    have hfree : ¬ s.Holds seqId := AList.lookup_eq_none.1 hlook
    cases hlist : s.host.cache.pool.freeList with
    | nil =>
      rw [alloc_of_nil hlist]
      have hfull : ¬ s.CanAlloc noMemory seqId := fun hcan => hcan.2.2 hlist
      simp only [hfull, or_false]
      rfl
    | cons block rest =>
      rw [alloc_of_cons hlist]
      have hcan : s.CanAlloc noMemory seqId :=
        ⟨hfree, hmemory, by rw [hlist]; exact List.cons_ne_nil _ _⟩
      simp only [hcan, or_true, iff_true]
      exact AList.mem_insert _ |>.2 (.inl rfl)

/-- A worker that is told to free a cache has none. -/
theorem not_holds_handleCacheFree : ¬ (s.handleCacheFree seqId).Holds seqId := by
  unfold handleCacheFree
  split
  · next hlook => exact AList.lookup_eq_none.1 hlook
  · intro hheld
    exact (AList.mem_erase.1 hheld).1 rfl

theorem nodeId_handleCacheAlloc : (s.handleCacheAlloc noMemory seqId).2.nodeId = s.nodeId := by
  unfold handleCacheAlloc
  split
  · rfl
  · rfl
  · split <;> rfl

end Stage

/-! ## The two phases -/

namespace Cluster

variable {net : Network} {seqId : ℕ} {stages : List (Stage R W)}

/-- With everyone in reach all workers are asked, and all answer. -/
theorem sendAllocs_of_reaches (h : ∀ s ∈ stages, net.reaches s.nodeId = true) :
    sendAllocs net seqId stages =
      (none, stages.map fun s => (s.nodeId, (s.handleCacheAlloc net.noMemory seqId).1),
        stages.map fun s => (s.handleCacheAlloc net.noMemory seqId).2) := by
  induction stages with
  | nil => rfl
  | cons s stages ih =>
    obtain ⟨hs, hrest⟩ := List.forall_mem_cons.1 h
    rw [sendAllocs, Option.isNone_iff_eq_none.1 hs, ih hrest]
    rfl

/-- Otherwise those before the first one out of reach are asked. -/
theorem sendAllocs_of_not_reaches (seqId : ℕ) (h : ¬ ∀ s ∈ stages, net.reaches s.nodeId = true) :
    ∃ e, (sendAllocs net seqId stages).1 = some e ∧ (sendAllocs net seqId stages).2.2 =
      (stages.takeWhile fun s => net.reaches s.nodeId).map
          (fun s => (s.handleCacheAlloc net.noMemory seqId).2)
        ++ stages.dropWhile fun s => net.reaches s.nodeId := by
  induction stages with
  | nil => exact absurd (fun s hs => by cases hs) h
  | cons s stages ih =>
    cases hs : net.sendFault s.nodeId with
    | some e =>
      have hreach : net.reaches s.nodeId = false := by rw [Network.reaches, hs]; rfl
      refine ⟨e, by rw [sendAllocs, hs], ?_⟩
      rw [sendAllocs, hs, List.takeWhile_cons, List.dropWhile_cons, hreach]
      rfl
    | none =>
      have hreach : net.reaches s.nodeId = true := by rw [Network.reaches, hs]; rfl
      obtain ⟨e, he, hstages⟩ := ih fun hall => h (List.forall_mem_cons.2 ⟨hreach, hall⟩)
      refine ⟨e, by rw [sendAllocs, hs]; exact he, ?_⟩
      rw [sendAllocs, hs, List.takeWhile_cons, List.dropWhile_cons, hreach]
      dsimp only
      rw [hstages]
      rfl

/-- An answer counts as success. -/
def Counts (net : Network) (answer : String × Except ErrorPayload Unit) : Bool :=
  (net.readAck answer.1 answer.2).isOk

/-- Those are counted that come before the first failure. -/
theorem collectAcks_fst (answers : List (String × Except ErrorPayload Unit)) :
    (collectAcks net answers).1 = (answers.takeWhile (Counts net)).map (·.1) := by
  induction answers with
  | nil => rfl
  | cons answer answers ih =>
    obtain ⟨nodeId, answer⟩ := answer
    rw [List.takeWhile_cons, Counts]
    cases hread : net.readAck nodeId answer with
    | error e =>
      rw [collectAcks, hread]
      rfl
    | ok u =>
      rw [collectAcks, hread]
      rw [ih]
      rfl

section

variable (net : Network) (seqId : ℕ) (cl : Cluster R W) (stages : List (Stage R W))

/-- The answers to an allocation everyone is asked for, as they come in. -/
def answersIn :
    List (String × Except ErrorPayload Unit) :=
  arriving net (stages.map fun s => (s.nodeId, (s.handleCacheAlloc net.noMemory seqId).1))

/-- The worker's answer comes in before the first failure. -/
def InTime (nodeId : String) : Prop :=
  nodeId ∈ ((answersIn net seqId stages).takeWhile (Counts net)).map (·.1)

/-- The worker has a cache for the sequence, or gets one when it is asked. -/
def Involved (s : Stage R W) : Prop :=
  s.Holds seqId ∨ seqId ∉ cl.allocatedSeqs ∧
    (s ∈ cl.stages.takeWhile fun s => net.reaches s.nodeId) ∧ s.CanAlloc net.noMemory seqId

/-- **What a rollback needs** of every worker that has or gets a cache: the
sequence is new to the pipeline, all workers are in reach, and that
worker's answer comes in before the first failure. -/
def RollsBack : Prop :=
  ∀ s ∈ cl.stages, Involved net seqId cl s →
    seqId ∉ cl.allocatedSeqs ∧ (∀ s' ∈ cl.stages, net.reaches s'.nodeId = true) ∧
      InTime net seqId cl.stages s.nodeId

end

/-- A send failed: whoever was asked before it keeps what it could
allocate. -/
theorem forall_not_holds_sent :
    (∀ s ∈ (stages.takeWhile fun s => net.reaches s.nodeId).map
        (fun s => (s.handleCacheAlloc net.noMemory seqId).2) ++
          stages.dropWhile fun s => net.reaches s.nodeId,
      ¬ s.Holds seqId) ↔
      (∀ s ∈ stages, ¬ s.Holds seqId) ∧
        ∀ s ∈ stages.takeWhile fun s => net.reaches s.nodeId, ¬ s.CanAlloc net.noMemory seqId := by
  have hsplit : ∀ s, s ∈ stages ↔ (s ∈ stages.takeWhile fun s => net.reaches s.nodeId) ∨
      s ∈ stages.dropWhile fun s => net.reaches s.nodeId := by
    intro s
    rw [← List.mem_append, List.takeWhile_append_dropWhile]
  simp only [List.forall_mem_append, List.forall_mem_map, Stage.holds_handleCacheAlloc, not_or,
    hsplit, or_imp, forall_and]
  tauto

/-- Someone answered with a failure: whoever could allocate keeps the cache
unless it was counted before. -/
theorem forall_not_holds_freed {counted : List String}
    (hreach : ∀ s ∈ stages, net.reaches s.nodeId = true) :
    (∀ s ∈ freeOn (fun nodeId => nodeId ∈ counted && net.reaches nodeId) seqId
        (stages.map fun s => (s.handleCacheAlloc net.noMemory seqId).2), ¬ s.Holds seqId) ↔
      ∀ s ∈ stages, s.nodeId ∈ counted ∨ ¬ (s.Holds seqId ∨ s.CanAlloc net.noMemory seqId) := by
  simp only [freeOn, List.forall_mem_map, Stage.nodeId_handleCacheAlloc]
  refine forall₂_congr fun s hs => ?_
  rw [hreach s hs, Bool.and_true]
  by_cases hcounted : s.nodeId ∈ counted
  · simp only [hcounted, decide_true, if_true, true_or, iff_true]
    exact Stage.not_holds_handleCacheFree
  · simp only [hcounted, decide_false, Bool.false_eq_true, if_false, false_or]
    rw [Stage.holds_handleCacheAlloc]

/-- **A failed allocation** leaves the pipeline's record of sequences as it
was, and leaves no cache on any worker exactly when it can be rolled
back. -/
theorem allocCache_failed (net : Network) (seqId : ℕ) (cl : Cluster R W) {e : FractureError}
    {cl' : Cluster R W} (h : allocCache net seqId cl = .error e cl') :
    cl'.allocatedSeqs = cl.allocatedSeqs ∧
      ((∀ s ∈ cl'.stages, ¬ s.Holds seqId) ↔ RollsBack net seqId cl) := by
  unfold RollsBack Involved
  unfold allocCache at h
  by_cases hknown : seqId ∈ cl.allocatedSeqs
  · rw [if_pos hknown] at h
    cases h
    simp only [hknown, not_true_eq_false, false_and, or_false, imp_false, true_and]
  rw [if_neg hknown] at h
  dsimp only at h
  by_cases hreach : ∀ s ∈ cl.stages, net.reaches s.nodeId = true
  · -- everyone was asked; a failure was among the answers
    rw [sendAllocs_of_reaches hreach] at h
    have hall : (cl.stages.takeWhile fun s => net.reaches s.nodeId) = cl.stages :=
      List.takeWhile_eq_self_iff.2 hreach
    split at h
    · cases h
    · cases h
      refine ⟨rfl, ?_⟩
      rw [forall_not_holds_freed hreach, hall, collectAcks_fst]
      refine forall₂_congr fun s hs => ?_
      have hin : InTime net seqId cl.stages s.nodeId ↔ s.nodeId ∈
          ((arriving net (cl.stages.map fun s =>
            (s.nodeId, (s.handleCacheAlloc net.noMemory seqId).1))).takeWhile
            (Counts net)).map (·.1) := Iff.rfl
      simp only [hknown, not_false_eq_true, true_and, hs, ← hin]
      tauto
    · rename_i heq
      cases heq
  · obtain ⟨e', he', hstages⟩ := sendAllocs_of_not_reaches seqId hreach
    rw [he', hstages] at h
    cases h
    refine ⟨rfl, ?_⟩
    rw [forall_not_holds_sent]
    have hsub : ∀ s ∈ cl.stages.takeWhile fun s => net.reaches s.nodeId, s ∈ cl.stages :=
      fun s hs => (List.takeWhile_prefix _).subset hs
    simp only [hknown, hreach, not_false_eq_true, true_and, false_and, and_false, imp_false, not_or,
      not_and]
    constructor
    · rintro ⟨habsent, hcannot⟩ s hs
      exact ⟨habsent s hs, hcannot s⟩
    · intro hnone
      exact ⟨fun s hs => (hnone s hs).1, fun s hs => (hnone s (hsub s hs)).2 hs⟩

/-- Two workers, of which the first has no block left. -/
def fullHead : Cluster ℕ ℕ :=
  { stages := twoStages.map fun s =>
      if s.nodeId = "head" then
        { s with host := { s.host with cache :=
            { s.host.cache with pool := { s.host.cache.pool with freeList := [] } } } }
      else s
    allocatedSeqs := [] }

/-- The workers' answers come in from the last to the first. -/
def lastFirst : Network := { Network.clear with order := ⟨List.reverse, List.reverse_perm⟩ }

/-- The first worker's failure comes in first, and the second worker keeps
its cache. -/
theorem late_answer_kept :
    isOk (allocCache .clear 7 fullHead) = false ∧
      (state (allocCache .clear 7 fullHead)).stages.map (fun s => decide (s.Holds 7)) =
        [false, true] := by
  decide +kernel

theorem allocCache_failed_lastFirst :
    ∃ e cl', allocCache lastFirst 7 fullHead = .error e cl' ∧ cl'.allocatedSeqs = [] ∧
      ((∀ s ∈ cl'.stages, ¬ s.Holds 7) ↔ RollsBack lastFirst 7 fullHead) ∧
      ∀ s ∈ cl'.stages, ¬ s.Holds 7 := by
  have hfails : isOk (allocCache lastFirst 7 fullHead) = false := by decide +kernel
  have hnone : ∀ s ∈ (state (allocCache lastFirst 7 fullHead)).stages, ¬ s.Holds 7 := by
    decide +kernel
  cases h : allocCache lastFirst 7 fullHead with
  | ok a cl' =>
    rw [h] at hfails
    cases hfails
  | error e cl' =>
    rw [h] at hnone
    obtain ⟨hseqs, hiff⟩ := allocCache_failed lastFirst 7 fullHead h
    exact ⟨e, cl', rfl, hseqs, hiff, hnone⟩

end Cluster

end Fracture
