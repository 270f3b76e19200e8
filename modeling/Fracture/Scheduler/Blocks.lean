import Fracture.Scheduler.Owed

/-!
# Blocks in use

Between two iterations the live caches are those of the running sequences,
each with one of its own (`Housed`), and every block is on the free stack or
in one table (`Accounted`). So what is not free is what the tables of the
running sequences hold, however the iterations before went.
-/

namespace Fracture

open Assoc PagedKvCacheManager Runs

variable {R W F : Type} {active : AList fun _ : ℕ => ActiveSequence} {c : PagedKvCacheManager R}

/-- The live caches belong to the running sequences, the other blocks are
free, and with nothing running all are. -/
structure LoopState.Settled (st : LoopState R) : Prop where
  live : {h | h ∈ st.cache.sequences} =
    {h | ∃ id seq, st.scheduler.active.lookup id = some seq ∧ seq.handle = h}
  used : st.cache.numFreeBlocks +
    total (fun _ seq => st.cache.tableLen seq.handle) st.scheduler.active = st.cache.pool.capacity
  idle : st.scheduler.active = ∅ → st.cache.numFreeBlocks = st.cache.pool.capacity

theorem Housed.live_iff (h : Housed active c) {g : CacheHandle} :
    g ∈ c.sequences ↔ ∃ id seq, active.lookup id = some seq ∧ seq.handle = g := by
  have hlen : (c.lenOf g).isSome ↔ g ∈ c.sequences := by
    rw [lenOf, Option.isSome_map, AList.lookup_isSome]
  rw [← hlen]
  constructor
  · exact h.only
  · rintro ⟨id, seq, hseq, rfl⟩
    exact h.live hseq

/-- The handles of the running sequences are the live ones, each once. -/
theorem Housed.handles_perm (h : Housed active c) :
    (active.entries.map (·.2.handle)).Perm c.sequences.keys := by
  have hnodup : (active.entries.map (·.2.handle)).Nodup := by
    refine List.pairwise_map.2 ((List.pairwise_map.1 active.nodupKeys).imp_of_mem ?_)
    intro e e' he he' hne heq
    exact hne (h.apart (AList.mem_lookup_iff.2 he) (AList.mem_lookup_iff.2 he') heq)
  refine (List.perm_ext_iff_of_nodup hnodup c.sequences.keys_nodup).2 fun g => ?_
  rw [← AList.mem_keys, h.live_iff, List.mem_map]
  constructor
  · rintro ⟨e, he, rfl⟩
    exact ⟨e.1, e.2, AList.mem_lookup_iff.2 he, rfl⟩
  · rintro ⟨id, seq, hseq, rfl⟩
    exact ⟨⟨id, seq⟩, AList.mem_lookup_iff.1 hseq, rfl⟩

theorem length_blocksInUse (c : PagedKvCacheManager R) :
    c.blocksInUse.length = (c.sequences.keys.map c.tableLen).sum := by
  rw [blocksInUse, collect, List.length_flatMap, AList.keys, List.keys, List.map_map]
  refine congrArg _ (List.map_congr_left fun e he => ?_)
  simp [tableLen, show c.sequences.lookup e.1 = some e.2 from AList.mem_lookup_iff.2 he]

theorem LoopState.Sane.settled {st : LoopState R} (h : st.Sane) : st.Settled := by
  have hused : st.cache.numFreeBlocks +
      total (fun _ seq => st.cache.tableLen seq.handle) st.scheduler.active =
        st.cache.pool.capacity := by
    have hblocks := h.accounted.perm.length_eq
    have hsum := (h.toHoused.handles_perm.map st.cache.tableLen).sum_nat
    rw [List.map_map] at hsum
    rw [List.length_append, List.length_range, length_blocksInUse, ← hsum] at hblocks
    exact hblocks
  refine ⟨Set.ext fun g => h.toHoused.live_iff, hused, fun hidle => ?_⟩
  rw [hidle, total_empty] at hused
  exact hused

/-- An iteration with the engine as it is then: what fails may change from
one iteration to the next. -/
def Trace.iterate (tr : Trace R F) (p : Engine R W F × Turn F) : Trace R F := tr.next p.1 p.2

theorem Trace.sane_iterate {tr : Trace R F} (hsane : tr.Sane) (turns : List (Engine R W F × Turn F))
    (hids : ((tr.submitted ++ turns.flatMap (·.2.submitted)).map (·.seqId)).Nodup) :
    (run Trace.iterate tr turns).Sane := by
  induction turns generalizing tr with
  | nil => exact hsane
  | cons p turns ih =>
    rw [List.flatMap_cons, ← List.append_assoc] at hids
    have hfresh : tr.Fresh p.2 := (List.nodup_append.1 (by rwa [List.map_append] at hids)).1
    exact ih (hsane.step p.1 hfresh) (by rwa [Trace.iterate, Trace.submitted_next])

/-- **After every iteration of every run the blocks in use are those of the
running sequences.** -/
theorem settled_iterate {fresh : ℕ → ℕ → Except FractureError (List R × List R)}
    {numBlocks numLayers numKvHeads headDim : ℕ}
    (hnew : PagedKvCacheManager.new fresh numBlocks numLayers numKvHeads headDim = .ok c)
    (maxBatchSize maxBatchTokens maxPrefillTokens : ℕ) (reservedBlocks : ℕ → ℕ)
    (turns : List (Engine R W F × Turn F))
    (hids : ((turns.flatMap (·.2.submitted)).map (·.seqId)).Nodup) :
    (run Trace.iterate (Trace.start (.new maxBatchSize maxBatchTokens maxPrefillTokens
      reservedBlocks) c) turns).state.Settled :=
  (Trace.sane_iterate (Trace.sane_start hnew ..) turns hids).state.settled

/-- Two prompts, in a cache where both get a block. -/
theorem settled_iterate_twoPrompts :
    (run Trace.iterate (Trace.start (.new 4 8 8 fun _ => 0) twoBlocks)
      [(referenceEngine 2, .quiet [.greedy 1 [5, 6] 3, .greedy 2 [7] 3] 9),
        (referenceEngine 2, .quiet [] 9)]).state.Settled :=
  settled_iterate new_twoBlocks 4 8 8 (fun _ => 0) _ (by decide)

end Fracture
