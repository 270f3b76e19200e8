import Fracture.PagedCache.Stores
import Fracture.TurboQuant.Writes

/-!
# Runs of the quantized cache

In every state of every run of calls on the cache, failed calls among
them, the tensors have the shapes they were allocated with, every block
is on the free stack or in one table, and every table has room for the
tokens of its sequence (`sound_afterCalls`).
-/

namespace Fracture.TurboQuant

open Effect QuantizedBlockPool

/-! ## The books -/

/-- The pool of a paged cache with the same free stack. -/
def QuantizedBlockPool.twin (p : QuantizedBlockPool) : BlockPool Unit :=
  { p with blocks := fun _ _ _ => [] }

/-- What the growth loop of that pool means for this one. -/
def QuantizedBlockPool.growAs (p : QuantizedBlockPool) :
    EStateM.Result Fault (BlockPool Unit × List ℕ) ℕ →
      EStateM.Result Fault (QuantizedBlockPool × List ℕ) ℕ
  | .ok fill (twin, table) => .ok fill ({ p with freeList := twin.freeList }, table)
  | .error _ (twin, table) =>
    .error (.error (.outOfMemory p.bytesPerBlock 0)) ({ p with freeList := twin.freeList }, table)

/-- **The two growth loops run in step.** -/
theorem growTable_twin (fill numNew : ℕ) (s : QuantizedBlockPool × List ℕ) :
    growTable fill numNew s =
      s.1.growAs (Fracture.growTable fill numNew (s.1.twin, s.2)) := by
  fun_induction growTable fill numNew s with
  | case1 fill pool table =>
    rw [Fracture.growTable]
    rfl
  | case2 fill numNew pool table hrem hfull e pool' halloc =>
    rw [Fracture.growTable, if_neg hrem, if_pos hfull]
    unfold QuantizedBlockPool.allocBlock at halloc
    split at halloc
    · next hlist =>
      cases halloc
      rw [BlockPool.allocBlock_nil hlist]
      rfl
    · cases halloc
  | case3 fill numNew pool table hrem hfull newBlock pool' halloc ih =>
    rw [Fracture.growTable, if_neg hrem, if_pos hfull]
    unfold QuantizedBlockPool.allocBlock at halloc
    split at halloc
    · cases halloc
    · next hlist =>
      cases halloc
      rw [ih, BlockPool.allocBlock_cons hlist]
      rfl
  | case4 fill numNew pool table hrem hroom toWrite ih =>
    rw [Fracture.growTable, if_neg hrem, if_neg hroom, ih]

namespace QuantizedKvCacheManager

/-- The cache after an append that ran out of blocks: the whole free stack
has moved into the table. -/
def drained (c : QuantizedKvCacheManager) (handle : CacheHandle) (seq : SequenceBlocks) :
    QuantizedKvCacheManager :=
  { c with
    pool := { c.pool with freeList := [] }
    sequences := c.sequences.insert handle
      { seq with blockTable := seq.blockTable ++ c.pool.freeList } }

/-- The cache after the layer-0 part of an append that found its blocks. -/
def grown (c : QuantizedKvCacheManager) (handle : CacheHandle) (seq : SequenceBlocks)
    (numNew : ℕ) : QuantizedKvCacheManager :=
  let n := extraBlocks seq.lastBlockFill numNew
  { c with
    pool := { c.pool with freeList := c.pool.freeList.drop n }
    sequences := c.sequences.insert handle (seq.grow (c.pool.freeList.take n) numNew) }

/-- The layer-0 part of an append, in closed form. -/
theorem reserve_eq {c : QuantizedKvCacheManager} {seq : SequenceBlocks}
    (hfill : seq.lastBlockFill ≤ blockSize) (handle : CacheHandle) (numNew : ℕ) :
    reserve handle seq numNew c =
      if extraBlocks seq.lastBlockFill numNew ≤ c.pool.freeList.length then
        .ok (seq.grow (c.pool.freeList.take (extraBlocks seq.lastBlockFill numNew)) numNew)
          (c.grown handle seq numNew)
      else
        .error (.error (.outOfMemory c.pool.bytesPerBlock 0)) (c.drained handle seq) := by
  by_cases h : extraBlocks seq.lastBlockFill numNew ≤ c.pool.freeList.length
  · simp only [reserve, growTable_twin, growTable_eq hfill, growOutcome, twin, if_pos h]
    rfl
  · simp only [reserve, growTable_twin, growTable_eq hfill, growOutcome, twin, if_neg h]
    rfl

/-- The paged cache with the same books. -/
def twin (c : QuantizedKvCacheManager) : PagedKvCacheManager Unit :=
  ⟨c.pool.twin, c.sequences, c.nextId⟩

end QuantizedKvCacheManager

/-! ## The invariant -/

/-- What a cache is created with. -/
structure Geometry where
  numLayers : ℕ
  numKvHeads : ℕ
  headDim : ℕ
  maxCompressTokens : ℕ
  config : TurboQuantConfig

namespace Geometry

/-- The bit width of a layer's keys or values. -/
def bits (g : Geometry) (kv : Kv) (layer : ℕ) : ℕ :=
  kv.pick (g.config.keyBitsForLayer layer g.numLayers)
    (g.config.valueBitsForLayer layer g.numLayers)

/-- The columns of a layer's block tensor. -/
def cols (g : Geometry) (kv : Kv) (part : Part) (layer : ℕ) : ℕ :=
  part.cols g.numKvHeads g.headDim (g.bits kv layer)

/-- The columns of a scratch tensor. -/
def scratchCols (g : Geometry) (kv : Kv) : Part → ℕ
  | .packedIndices => QuantizedKvCacheManager.maxPackedDim g.config g.numLayers g.numKvHeads
      g.headDim kv
  | .norms => g.numKvHeads

end Geometry

/-- What holds of the cache between calls. -/
structure Sound (g : Geometry) (c : QuantizedKvCacheManager) : Prop where
  /-- Block tensors are as wide as their layer's rows. -/
  block : ∀ kv part blockId layer, (c.pool.blocks kv part blockId layer).shape =
    (blockSize, g.cols kv part layer, part.dtype)
  /-- Scratch tensors are as wide as the widest. -/
  scratch : ∀ kv part, (c.scratch kv part).shape =
    (g.maxCompressTokens, g.scratchCols kv part, part.dtype)
  numLayers : c.pool.numLayers = g.numLayers
  layerBits : ∀ kv, c.pool.layerBits kv = (List.range g.numLayers).map (g.bits kv)
  centroids : c.pool.centroidTables = g.config.distinctBitWidths
  /-- Blocks and ids are accounted for. -/
  books : c.twin.Accounted
  room : c.twin.Roomy

theorem shape_tensor (alloc : Allocator) (n rows cols : ℕ) (dtype : DType) :
    (alloc.tensor n rows cols dtype).shape = (rows, cols, dtype) := by
  unfold Allocator.tensor
  split <;> rfl

namespace Sound

variable {g : Geometry} {c : QuantizedKvCacheManager}

section

variable (hc : Sound g c) (kv : Kv) (part : Part)
include hc kv part

theorem scratch_rows :
    (c.scratch kv part).rows = g.maxCompressTokens := congrArg Prod.fst (hc.scratch kv part)

theorem scratch_cols :
    (c.scratch kv part).cols = g.scratchCols kv part :=
  congrArg (fun s => s.2.1) (hc.scratch kv part)

theorem scratch_dtype :
    (c.scratch kv part).dtype = part.dtype := congrArg (fun s => s.2.2) (hc.scratch kv part)

theorem block_rows (b l : ℕ) :
    (c.pool.blocks kv part b l).rows = blockSize := congrArg Prod.fst (hc.block kv part b l)

theorem block_cols (b l : ℕ) :
    (c.pool.blocks kv part b l).cols = g.cols kv part l :=
  congrArg (fun s => s.2.1) (hc.block kv part b l)

end

/-- Only the contents of block tensors have changed. -/
theorem onPool (hc : Sound g c) {pool : QuantizedBlockPool} (h : SameBooks c.pool pool) :
    Sound g { c with pool } := by
  have hshape := fun kv part b l => (h.shape kv part b l).trans (hc.block kv part b l)
  obtain ⟨blocks, rfl⟩ : ∃ blocks, pool = { c.pool with blocks } := ⟨_, h.books⟩
  exact ⟨hshape, hc.scratch, hc.numLayers, hc.layerBits, hc.centroids, hc.books, hc.room⟩

/-- Only the contents of scratch tensors have changed. -/
theorem onScratch (hc : Sound g c) {scratch : Kv → Part → ByteTensor}
    (h : ∀ kv part, (scratch kv part).shape = (c.scratch kv part).shape) :
    Sound g { c with scratch } :=
  ⟨hc.block, fun kv part => (h kv part).trans (hc.scratch kv part), hc.numLayers, hc.layerBits,
    hc.centroids, hc.books, hc.room⟩

/-- Only the books have changed. -/
theorem onBooks (hc : Sound g c) {freeList : List ℕ}
    {sequences : AList fun _ : CacheHandle => SequenceBlocks} {nextId : ℕ}
    (hbooks : PagedKvCacheManager.Accounted ⟨{ c.pool.twin with freeList }, sequences, nextId⟩)
    (hroom : PagedKvCacheManager.Roomy ⟨{ c.pool.twin with freeList }, sequences, nextId⟩) :
    Sound g { c with pool := { c.pool with freeList }, sequences, nextId } :=
  ⟨hc.block, hc.scratch, hc.numLayers, hc.layerBits, hc.centroids, hbooks, hroom⟩

open QuantizedKvCacheManager

theorem reserve (hc : Sound g c) {handle : CacheHandle} {seq : SequenceBlocks}
    (hseq : c.sequences.lookup handle = some seq) (numNew : ℕ) :
    Sound g (state (reserve handle seq numNew c)) := by
  have hfill := hc.books.fill hseq
  rw [reserve_eq hfill]
  split
  case isTrue henough =>
    exact hc.onBooks (hc.books.grown hseq numNew) (hc.room.grown hseq hfill henough)
  case isFalse => exact hc.onBooks (hc.books.drained hseq) (hc.room.drained hseq)

/-- However the write part ends, what it changes is inside the tensors. -/
theorem within_writeNew (copyError : Kv → Part → ℕ → Option FractureError) (layer numNew : ℕ)
    (seq : SequenceBlocks) :
    Within (fun c c' => Sound g c → Sound g c') (writeNew copyError layer numNew seq) := by
  intro c hc
  unfold writeNew
  cases checkedSub seq.currentLen numNew with
  | error e =>
    rw [lift_bind_of_error rfl]
    exact hc
  | ok startToken =>
    rw [lift_bind_of_ok rfl, get_bind]
    have hwithin := writeRows_within copyError c.scratch layer startToken seq.blockTable numNew 0 c.pool
    unfold QuantizedKvCacheManager.onPool
    cases hrun : writeRows copyError c.scratch layer startToken seq.blockTable numNew 0 c.pool with
    | ok u pool =>
      rw [hrun] at hwithin
      exact hc.onPool hwithin
    | error e pool =>
      rw [hrun] at hwithin
      exact hc.onPool hwithin

theorem within_compress {R : Type} (d : Device R) (kv : Kv) (layer bits : ℕ)
    (input : HeadRows R) :
    Within (fun c c' => Sound g c → Sound g c') (compress d kv layer bits input) := by
  intro c hc
  unfold compress
  split
  · exact hc
  split
  · exact hc
  refine hc.onScratch fun kv' part => ?_
  by_cases h : kv' = kv
  · subst h
    simp [turboquantCompress]
  · simp [h]

instance : Std.Refl fun c c' => Sound g c → Sound g c' := ⟨fun _ h => h⟩

instance : IsTrans QuantizedKvCacheManager fun c c' => Sound g c → Sound g c' :=
  ⟨fun _ _ _ h h' hc => h' (h hc)⟩

theorem append {R : Type} (hc : Sound g c) (d : Device R) (handle : CacheHandle) (layer : ℕ)
    (keys values : HeadRows R) : Sound g (state (appendKv d handle layer keys values c)) := by
  suffices hwithin : Within (fun c c' => Sound g c → Sound g c')
      (appendKv d handle layer keys values) from hwithin c hc
  unfold appendKv
  refine Within.get.bind fun c₁ => (Within.lift _).bind fun keyBits => ?_
  refine Within.get.bind fun c₂ => (Within.lift _).bind fun valueBits => ?_
  refine Within.get.bind fun c₃ => (Within.lift _).bind fun _ => ?_
  refine (within_compress d .k layer keyBits keys).bind fun _ => ?_
  refine Within.get.bind fun c₄ => (Within.lift _).bind fun _ => ?_
  refine (within_compress d .v layer valueBits values).bind fun _ => ?_
  -- from here on the sequence is the one that is found
  intro c hc
  rw [get_bind]
  cases hseq : c.sequences.lookup handle with
  | none => exact hc
  | some seq =>
    by_cases hl : layer = 0
    · subst hl
      have hreserved := hc.reserve hseq keys.rows.length
      cases hrun : QuantizedKvCacheManager.reserve handle seq keys.rows.length c with
      | ok seq' c' =>
        rw [hrun] at hreserved
        have hstep := within_writeNew (g := g) d.copyError 0 keys.rows.length seq' c' hreserved
        simpa [bind_of_ok hrun] using hstep
      | error e c' =>
        rw [hrun] at hreserved
        simpa [bind_of_error hrun] using hreserved
    · have hstep := within_writeNew (g := g) d.copyError layer keys.rows.length seq c hc
      simpa [hl] using hstep

theorem alloc (hc : Sound g c) : Sound g (state (alloc c)) := by
  have hbooks := hc.books.alloc
  have hroom := hc.room.alloc
  unfold QuantizedKvCacheManager.alloc QuantizedBlockPool.allocBlock
  cases hlist : c.pool.freeList with
  | nil =>
    rw [PagedKvCacheManager.alloc_of_nil hlist] at hbooks hroom
    exact hc.onBooks hbooks hroom
  | cons b rest =>
    rw [PagedKvCacheManager.alloc_of_cons hlist] at hbooks hroom
    exact hc.onBooks hbooks hroom

/-- Freeing a table puts its blocks back on the stack. -/
theorem foldl_freeBlock (table : List ℕ) (p : QuantizedBlockPool) :
    table.foldl freeBlock p = { p with freeList := table.reverse ++ p.freeList } := by
  induction table generalizing p with
  | nil => rfl
  | cons b table ih => rw [List.foldl_cons, ih]; simp [freeBlock]

theorem free (hc : Sound g c) (handle : CacheHandle) : Sound g (state (free handle c)) := by
  have hbooks := hc.books.free handle
  have hroom := hc.room.free handle
  unfold QuantizedKvCacheManager.free
  cases hseq : c.sequences.lookup handle with
  | none => exact hc
  | some seq =>
    rw [PagedKvCacheManager.free_of_lookup hseq] at hbooks hroom
    simp only [foldl_freeBlock]
    exact hc.onBooks hbooks hroom

theorem new {alloc : Allocator} {numBlocks : ℕ}
    (h : new alloc numBlocks g.numLayers g.numKvHeads g.headDim g.maxCompressTokens g.config =
      .ok c) : Sound g c := by
  obtain ⟨pool, hpool, h⟩ := except_bind_eq_ok.1 h
  obtain ⟨⟨⟩, -, hpool⟩ := except_bind_eq_ok.1 hpool
  obtain ⟨⟨⟩, -, h⟩ := except_bind_eq_ok.1 h
  cases hpool
  cases h
  refine ⟨?_, ?_, rfl, fun _ => rfl, rfl, .empty rfl, ⟨fun hseq => ?_⟩⟩
  · intro kv part blockId layer
    exact shape_tensor _ _ _ _ _
  · intro kv part
    cases part
    · exact shape_tensor _ _ _ _ _
    · exact shape_tensor _ _ _ _ _
  · cases hseq

end Sound

/-! ## Runs -/

/-- A call on the cache. -/
inductive CacheCall (R : Type)
  | alloc
  | append (d : Device R) (handle : CacheHandle) (layer : ℕ) (keys values : HeadRows R)
  | free (handle : CacheHandle)

/-- Make the call. -/
def CacheCall.run {R : Type} : CacheCall R → EStateM Fault QuantizedKvCacheManager Unit
  | .alloc => do
    let _ ← QuantizedKvCacheManager.alloc
  | .append d handle layer keys values =>
    QuantizedKvCacheManager.appendKv d handle layer keys values
  | .free handle => QuantizedKvCacheManager.free handle

/-- The cache after a run of calls, whether they succeeded or failed. -/
def QuantizedKvCacheManager.afterCalls {R : Type} (c : QuantizedKvCacheManager)
    (calls : List (CacheCall R)) : QuantizedKvCacheManager :=
  calls.foldl (fun c call => state (call.run c)) c

/-- **The invariant holds in every state of every run.** -/
theorem sound_afterCalls {R : Type} {g : Geometry} {c : QuantizedKvCacheManager}
    (hc : Sound g c) (calls : List (CacheCall R)) : Sound g (c.afterCalls calls) := by
  induction calls generalizing c with
  | nil => exact hc
  | cons call calls ih =>
    refine ih ?_
    cases call with
    | alloc =>
      change Sound g (state ((QuantizedKvCacheManager.alloc >>= fun _ => pure ()) c))
      rw [state_bind_pure]
      exact hc.alloc
    | append d handle layer keys values => exact hc.append d handle layer keys values
    | free handle => exact hc.free handle

end Fracture.TurboQuant
