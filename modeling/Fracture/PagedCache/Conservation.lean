import Fracture.PagedCache.Append

/-!
# No block is lost

A run is any list of calls on the cache, each with a backend of its own:
calls may fail at any point, and the run goes on from the state the
failed call left. In every state of every run the free stack and the
block tables of the live sequences together are the blocks of the pool,
each once (`afterCalls_perm`).

The invariant behind it (`Accounted`) adds that ids still to be handed
out are not in use, and that no last block holds more tokens than a
block has; the growth loop's closed form needs the latter.
-/

namespace Fracture

open Effect BlockPool

variable {R W F : Type} {fresh : ℕ → ℕ → Except FractureError (List R × List R)}
  {numBlocks numLayers numKvHeads headDim : ℕ}

/-- A call on the cache. -/
inductive CacheCall (R W F : Type)
  | alloc
  | append (b : Backend R W F) (handle : CacheHandle) (layer : ℕ) (keys values : List R)
  | free (handle : CacheHandle)

namespace CacheCall

/-- Make the call. -/
def run : CacheCall R W F → EStateM Fault (PagedKvCacheManager R) Unit
  | .alloc => do
    let _ ← PagedKvCacheManager.alloc
  | .append b handle layer keys values => PagedKvCacheManager.appendKv b handle layer keys values
  | .free handle => PagedKvCacheManager.free handle

end CacheCall

namespace PagedKvCacheManager

/-- The cache after a run of calls, whether they succeeded or failed. -/
def afterCalls (c : PagedKvCacheManager R) (calls : List (CacheCall R W F)) :
    PagedKvCacheManager R :=
  calls.foldl (fun c call => state (call.run c)) c

/-- Every block of the pool is accounted for. -/
structure Accounted (c : PagedKvCacheManager R) : Prop where
  /-- The free stack and the tables are the blocks of the pool, each once. -/
  perm : (c.pool.freeList ++ c.blocksInUse).Perm (List.range c.pool.capacity)
  /-- Ids still to be handed out are not in use. -/
  fresh : ∀ h ∈ c.sequences, h < c.nextId
  /-- A last block holds at most a block of tokens. -/
  fill : ∀ {h seq}, c.sequences.lookup h = some seq → seq.lastBlockFill ≤ blockSize

/-! ## The pieces -/

theorem fillAfter_le {fill : ℕ} (h : fill ≤ blockSize) (numNew : ℕ) :
    fillAfter fill numNew ≤ blockSize := by
  unfold fillAfter
  split
  · exact h
  · exact Nat.mod_lt _ (by decide)

/-- Freeing a table puts its blocks back on the stack. -/
theorem foldl_freeBlock (table : List ℕ) (p : BlockPool R) :
    table.foldl freeBlock p = { p with freeList := table.reverse ++ p.freeList } := by
  induction table generalizing p with
  | nil => rfl
  | cons b table ih => rw [List.foldl_cons, ih]; simp [freeBlock]

section Equations

variable {c c' : PagedKvCacheManager R} {id handle : CacheHandle} {seq : SequenceBlocks}

theorem alloc_of_nil (h : c.pool.freeList = []) :
    alloc c = .error (.error (.outOfMemory c.pool.bytesPerBlock 0))
      { c with nextId := c.nextId + 1 } := by
  rw [alloc, allocBlock_nil h]

theorem alloc_of_cons {firstBlock : ℕ} {rest : List ℕ} (h : c.pool.freeList = firstBlock :: rest) :
    alloc c = .ok c.nextId {
      pool := { c.pool with freeList := rest }
      sequences := c.sequences.insert c.nextId ⟨[firstBlock], 0, 0⟩
      nextId := c.nextId + 1 } := by
  rw [alloc, allocBlock_cons h]

theorem alloc_inv (h : alloc c = .ok id c') :
    ∃ b rest, c.pool.freeList = b :: rest ∧ id = c.nextId ∧ c' = {
      pool := { c.pool with freeList := rest }
      sequences := c.sequences.insert c.nextId ⟨[b], 0, 0⟩
      nextId := c.nextId + 1 } := by
  cases hlist : c.pool.freeList with
  | nil =>
    rw [alloc_of_nil hlist] at h
    cases h
  | cons b rest =>
    rw [alloc_of_cons hlist] at h
    cases h
    exact ⟨b, rest, rfl, rfl, rfl⟩

theorem free_of_notLive (h : c.sequences.lookup handle = none) :
    free handle c = .error (invalidHandle handle) c := by
  rw [free, h]

theorem free_of_lookup (h : c.sequences.lookup handle = some seq) :
    free handle c = .ok () { c with
      pool := { c.pool with freeList := seq.blockTable.reverse ++ c.pool.freeList }
      sequences := c.sequences.erase handle } := by
  rw [free, h]
  simp only [foldl_freeBlock]

theorem free_inv (h : free handle c = .ok () c') :
    ∃ seq : SequenceBlocks, c' = { c with
      pool := { c.pool with freeList := seq.blockTable.reverse ++ c.pool.freeList }
      sequences := c.sequences.erase handle } := by
  cases hseq : c.sequences.lookup handle with
  | none =>
    rw [free_of_notLive hseq] at h
    cases h
  | some seq =>
    rw [free_of_lookup hseq] at h
    cases h
    exact ⟨seq, rfl⟩

end Equations

/-- A new cache has all its blocks on the stack and no sequence. -/
theorem new_eq_ok {c : PagedKvCacheManager R}
    (h : new fresh numBlocks numLayers numKvHeads headDim = .ok c) :
    c.pool.freeList = List.range numBlocks ∧ c.pool.capacity = numBlocks ∧
      c.pool.numLayers = numLayers ∧ c.sequences = ∅ ∧ c.nextId = 0 := by
  obtain ⟨pool, hpool, hc⟩ := except_bind_eq_ok.1 h
  obtain ⟨⟨⟩, -, hpool⟩ := except_bind_eq_ok.1 hpool
  cases hpool
  cases hc
  exact ⟨rfl, rfl, rfl, rfl, rfl⟩

theorem geometry_of_appended {handle : CacheHandle} {layer numNew : ℕ}
    (hstep : Appended handle layer numNew c c') :
    c'.pool.capacity = c.pool.capacity ∧ c'.pool.numLayers = c.pool.numLayers := by
  cases hstep with
  | invalid => exact ⟨rfl, rfl⟩
  | written _ _ hw => exact ⟨hw.capacity, hw.numLayers⟩
  | exhausted => exact ⟨rfl, rfl⟩
  | grown _ _ _ hw => exact ⟨hw.capacity, hw.numLayers⟩

namespace Accounted

variable {c : PagedKvCacheManager R} {h : CacheHandle} {seq seq' : SequenceBlocks}

theorem empty {pool : BlockPool R} {nextId : ℕ} (h : pool.freeList = List.range pool.capacity) :
    Accounted ⟨pool, ∅, nextId⟩ := by
  refine ⟨?_, fun g hmem => absurd hmem (AList.notMem_empty g), fun hseq => by cases hseq⟩
  rw [blocksInUse, Assoc.collect_empty, List.append_nil, h]

theorem of_new (h : new fresh numBlocks numLayers numKvHeads headDim = .ok c) :
    c.Accounted := by
  obtain ⟨hfree, hcap, -, hseqs, -⟩ := new_eq_ok h
  obtain ⟨pool, sequences, nextId⟩ := c
  obtain rfl : sequences = ∅ := hseqs
  exact .empty (hcap ▸ hfree)

variable (hc : c.Accounted)
include hc

theorem alloc : (state (PagedKvCacheManager.alloc c)).Accounted := by
  have hnew : c.nextId ∉ c.sequences := fun hmem => absurd (hc.fresh _ hmem) (lt_irrefl _)
  cases hlist : c.pool.freeList with
  | nil =>
    rw [alloc_of_nil hlist]
    exact ⟨hc.perm, fun h hmem => (hc.fresh h hmem).trans (Nat.lt_succ_self _), hc.fill⟩
  | cons b rest =>
    rw [alloc_of_cons hlist]
    refine ⟨?_, ?_, ?_⟩
    · have hperm := hc.perm
      rw [hlist] at hperm
      simp only [state_ok, blocksInUse]
      rw [Assoc.collect_insert_of_notMem hnew]
      exact List.perm_middle.trans hperm
    · intro h hmem
      rcases (AList.mem_insert _).1 hmem with rfl | hmem
      · exact Nat.lt_succ_self _
      · exact (hc.fresh h hmem).trans (Nat.lt_succ_self _)
    · exact Assoc.forall_insert (P := fun _ (seq : SequenceBlocks) => seq.lastBlockFill ≤ blockSize)
        (Nat.zero_le _) hc.fill

section

variable (hseq : c.sequences.lookup h = some seq)
include hseq

/-- Blocks move between the stack and the table of a live sequence. -/
theorem move {freeList : List ℕ}
    (hmove : (freeList ++ seq'.blockTable).Perm (c.pool.freeList ++ seq.blockTable))
    (hfill : seq'.lastBlockFill ≤ blockSize) :
    Accounted { c with
      pool := { c.pool with freeList }
      sequences := c.sequences.insert h seq' } := by
  refine ⟨Assoc.perm_insert_of_perm hseq hmove hc.perm, ?_,
    Assoc.forall_insert (P := fun _ (seq : SequenceBlocks) => seq.lastBlockFill ≤ blockSize) hfill
      hc.fill⟩
  intro g hmem
  rcases (AList.mem_insert _).1 hmem with rfl | hmem
  · exact hc.fresh g (AList.lookup_isSome.1 (by rw [hseq]; rfl))
  · exact hc.fresh g hmem

theorem drained : (c.drained h seq).Accounted := by
  have hfill := hc.fill hseq
  refine hc.move hseq ?_ hfill
  exact (List.perm_append_comm : (seq.blockTable ++ _).Perm _)

theorem grown (numNew : ℕ) : (c.grown h seq numNew).Accounted := by
  refine hc.move hseq ?_ (fillAfter_le (hc.fill hseq) _)
  refine List.perm_append_comm.trans ?_
  change ((seq.blockTable ++ c.pool.freeList.take _) ++ c.pool.freeList.drop _).Perm _
  rw [List.append_assoc, List.take_append_drop]
  exact List.perm_append_comm

end

theorem onPool {table : List ℕ} {layer : ℕ} {pool : BlockPool R}
    (hw : WritesOnly table layer c.pool pool) : Accounted { c with pool } := by
  refine ⟨?_, hc.fresh, hc.fill⟩
  change (_ ++ c.blocksInUse).Perm _
  rw [hw.freeList, hw.capacity]
  exact hc.perm

theorem append (b : Backend R W F) (handle : CacheHandle) (layer : ℕ) (keys values : List R) :
    (state (appendKv b handle layer keys values c)).Accounted := by
  have hstep := appended b handle layer keys values fun seq hseq => hc.fill hseq
  generalize state (appendKv b handle layer keys values c) = c' at hstep ⊢
  cases hstep with
  | invalid => exact hc
  | written _ _ hw => exact hc.onPool hw
  | exhausted hseq => exact hc.drained hseq
  | grown hseq _ _ hw => exact (hc.grown hseq _).onPool hw

theorem free (handle : CacheHandle) :
    (state (PagedKvCacheManager.free handle c)).Accounted := by
  cases hseq : c.sequences.lookup handle with
  | none =>
    rw [free_of_notLive hseq]
    exact hc
  | some seq =>
    rw [free_of_lookup hseq]
    refine ⟨?_, ?_, ?_⟩
    · change ((seq.blockTable.reverse ++ c.pool.freeList) ++
        Assoc.collect SequenceBlocks.blockTable (c.sequences.erase handle)).Perm _
      refine List.Perm.trans ?_ hc.perm
      refine List.Perm.trans ?_ ((Assoc.collect_perm hseq).symm.append_left c.pool.freeList)
      rw [← List.append_assoc]
      refine List.Perm.append_right _ (List.perm_append_comm.trans ?_)
      exact (List.reverse_perm _).append_left _
    · intro h hmem
      exact hc.fresh h (AList.mem_erase.1 hmem).2
    · intro h seq' hseq'
      exact hc.fill (Assoc.lookup_erase_eq_some.1 hseq').2

/-- **One call keeps the account**, however it ends. -/
theorem run (call : CacheCall R W F) : (state (call.run c)).Accounted := by
  cases call with
  | alloc =>
    rw [CacheCall.run, state_bind_pure]
    exact hc.alloc
  | append b handle layer keys values => exact hc.append b handle layer keys values
  | free handle => exact hc.free handle

/-- **A run of calls keeps the account.** -/
theorem afterCalls (calls : List (CacheCall R W F)) :
    (c.afterCalls calls).Accounted := by
  induction calls generalizing c with
  | nil => exact hc
  | cons call calls ih => exact ih (hc.run call)

/-- No call changes the size of the pool. -/
theorem geometry_run (call : CacheCall R W F) :
    (state (call.run c)).pool.capacity = c.pool.capacity ∧
      (state (call.run c)).pool.numLayers = c.pool.numLayers := by
  cases call with
  | alloc =>
    rw [CacheCall.run, state_bind_pure]
    cases hlist : c.pool.freeList with
    | nil =>
      rw [alloc_of_nil hlist]
      exact ⟨rfl, rfl⟩
    | cons b rest =>
      rw [alloc_of_cons hlist]
      exact ⟨rfl, rfl⟩
  | append b handle layer keys values =>
    have hstep := appended b handle layer keys values fun seq hseq => hc.fill hseq
    exact geometry_of_appended hstep
  | free handle =>
    rw [CacheCall.run]
    cases hseq : c.sequences.lookup handle with
    | none =>
      rw [free_of_notLive hseq]
      exact ⟨rfl, rfl⟩
    | some seq =>
      rw [free_of_lookup hseq]
      exact ⟨rfl, rfl⟩

theorem geometry_afterCalls (calls : List (CacheCall R W F)) :
    (c.afterCalls calls).pool.capacity = c.pool.capacity ∧
      (c.afterCalls calls).pool.numLayers = c.pool.numLayers := by
  induction calls generalizing c with
  | nil => exact ⟨rfl, rfl⟩
  | cons call calls ih =>
    obtain ⟨hcap, hlayers⟩ := ih (hc.run call)
    obtain ⟨hcap', hlayers'⟩ := hc.geometry_run call
    exact ⟨hcap.trans hcap', hlayers.trans hlayers'⟩

end Accounted

/-- Every table has room for the tokens of its sequence, and for those its
last block can still take. -/
structure Roomy (c : PagedKvCacheManager R) : Prop where
  le : ∀ {h seq}, c.sequences.lookup h = some seq →
    seq.currentLen + (blockSize - seq.lastBlockFill) ≤ blockSize * seq.blockTable.length

namespace Roomy

variable {c : PagedKvCacheManager R} {h : CacheHandle} {seq seq' : SequenceBlocks} (hc : c.Roomy)
include hc

theorem insert {pool : BlockPool R} {nextId : ℕ}
    (hseq : seq.currentLen + (blockSize - seq.lastBlockFill) ≤ blockSize * seq.blockTable.length) :
    Roomy { pool, sequences := c.sequences.insert h seq, nextId } :=
  ⟨Assoc.forall_insert (P := fun _ (seq : SequenceBlocks) => seq.currentLen +
    (blockSize - seq.lastBlockFill) ≤ blockSize * seq.blockTable.length) hseq hc.le⟩

theorem alloc : (state (PagedKvCacheManager.alloc c)).Roomy := by
  cases hlist : c.pool.freeList with
  | nil =>
    rw [alloc_of_nil hlist]
    exact ⟨hc.le⟩
  | cons b rest =>
    rw [alloc_of_cons hlist]
    exact hc.insert (Nat.le_refl _)

theorem drained (hseq : c.sequences.lookup h = some seq) : (c.drained h seq).Roomy := by
  refine hc.insert ?_
  have hroom := hc.le hseq
  dsimp only
  rw [List.length_append, Nat.mul_add]
  omega

/-- The blocks a growth takes are enough for the tokens it makes room for. -/
theorem grown (hseq : c.sequences.lookup h = some seq) (hfill : seq.lastBlockFill ≤ blockSize)
    {numNew : ℕ} (henough : extraBlocks seq.lastBlockFill numNew ≤ c.pool.freeList.length) :
    (c.grown h seq numNew).Roomy := by
  refine hc.insert ?_
  have hroom := hc.le hseq
  change seq.currentLen + numNew + (blockSize - fillAfter seq.lastBlockFill numNew) ≤
    blockSize * (seq.blockTable ++ c.pool.freeList.take _).length
  rw [List.length_append, List.length_take_of_le henough]
  unfold fillAfter extraBlocks
  simp only [blockSize] at *
  split <;> omega

theorem free (handle : CacheHandle) : (state (PagedKvCacheManager.free handle c)).Roomy := by
  cases hseq : c.sequences.lookup handle with
  | none =>
    rw [free_of_notLive hseq]
    exact hc
  | some seq =>
    rw [free_of_lookup hseq]
    exact ⟨fun hg => hc.le (Assoc.lookup_erase_eq_some.1 hg).2⟩

end Roomy

/-- **In every reachable state each block is in one place**: the free
stack and the tables of the live sequences are together a permutation of
the pool's blocks. -/
theorem afterCalls_perm {c : PagedKvCacheManager R}
    (hnew : new fresh numBlocks numLayers numKvHeads headDim = .ok c)
    (calls : List (CacheCall R W F)) :
    ((c.afterCalls calls).pool.freeList ++ (c.afterCalls calls).blocksInUse).Perm
      (List.range numBlocks) := by
  have hc := Accounted.of_new hnew
  have hcap := (hc.geometry_afterCalls calls).1.trans (new_eq_ok hnew).2.1
  rw [← hcap]
  exact (hc.afterCalls calls).perm

theorem afterCalls_perm_two_blocks :
    ∃ c : PagedKvCacheManager ℕ, new (fun _ _ => .ok ([], [])) 2 1 1 1 = .ok c ∧
      ((c.afterCalls (W := ℕ) (F := ℕ) [.alloc, .alloc, .alloc, .free 0]).pool.freeList ++
        (c.afterCalls (W := ℕ) (F := ℕ) [.alloc, .alloc, .alloc, .free 0]).blocksInUse).Perm
          (List.range 2) :=
  ⟨_, rfl, afterCalls_perm (show new (fun _ _ => .ok ([], [])) 2 1 1 1 = .ok _ from rfl) _⟩

end PagedKvCacheManager

end Fracture
