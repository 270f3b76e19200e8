import Fracture.TurboQuant.Runs
import Mathlib.Data.List.Dedup

/-!
# What a quantized append stores

The scratch tensors are as wide as the widest layer, and the row copy
takes only rows of one width. So an append on a layer goes through, and
stores each token's compressed bytes at the token's place, exactly where
that layer is as wide as the widest one, for keys and for values, and there
is a head of a token to compress.
-/

namespace Fracture.TurboQuant

open Effect Rows LittleEndian QuantizedBlockPool QuantizedKvCacheManager

/-! ## Sizes -/

theorem length_packHead {bits : ℕ} (hbits : bits ∈ TurboQuantConfig.validBits) (headDim : ℕ)
    (idx : ℕ → ℕ) : (packHead bits headDim idx).length = packedDimPerHead headDim bits := by
  simp only [TurboQuantConfig.validBits, List.mem_cons, List.not_mem_nil, or_false] at hbits
  unfold packedDimPerHead
  rcases hbits with rfl | rfl | rfl
  · simp only [packHead, Nat.reduceEqDiff, if_false, if_true, List.length_map, List.length_range]
    omega
  · simp only [packHead, if_true, List.length_map, List.length_range]
    omega
  · simp only [packHead, Nat.reduceEqDiff, if_false, if_true, List.length_map, List.length_range]
    omega

/-- A list made of pieces of one length for each number. -/
theorem length_flatMap_range {α : Type} {f : ℕ → List α} {w : ℕ} (h : ∀ i, (f i).length = w)
    (n : ℕ) : ((List.range n).flatMap f).length = n * w := by
  rw [List.flatMap_def, length_flatten_of_length_eq (List.forall_mem_map.2 fun i _ => h i),
    List.length_map, List.length_range]

variable {R : Type}

/-- A token's bytes are a row of the layer's block tensors. -/
theorem length_compressed (q : Quantizer R) {bits : ℕ}
    (hbits : bits ∈ TurboQuantConfig.validBits) (kv : Kv) (part : Part)
    (layer numKvHeads headDim : ℕ) (row : R) :
    (q.compressed kv part layer bits numKvHeads headDim row).length =
      part.cols numKvHeads headDim bits * part.dtype.sizeBytes := by
  cases part with
  | packedIndices =>
    rw [Quantizer.compressed, length_flatMap_range fun head => length_packHead hbits headDim _]
    exact (Nat.mul_one _).symm
  | norms => exact length_flatMap_range (fun head => length_toBytes 2 _) numKvHeads

/-- What is written from the front of a tensor, in rows of its own width, are
its first rows. -/
theorem window_toRows_store {t : ByteTensor} {pieces : List (List UInt8)}
    (hpieces : ∀ piece ∈ pieces, piece.length = t.rowSize) (hrows : pieces.length ≤ t.rows) :
    window (t.store pieces.flatten).toRows 0 pieces.length = pieces := by
  have hlen := length_flatten_of_length_eq hpieces
  have hfit : 0 + pieces.flatten.length ≤ t.data.length := by
    rw [Nat.zero_add, hlen, t.length_data]
    exact Nat.mul_le_mul_right _ hrows
  have hdata : (t.store pieces.flatten).data = overwrite t.data (0 * t.rowSize) pieces.flatten := by
    change (overwrite t.data 0 pieces.flatten).take t.data.length = _
    rw [Nat.zero_mul, List.take_of_length_le (by rw [length_overwrite hfit])]
  have hsize : t.data.length = t.rows * t.rowSize := t.length_data
  have hover := rowsOf_overwrite (d := 0) hsize hlen (by simpa using hrows)
  have hrowsEq : (t.store pieces.flatten).toRows = overwrite t.toRows 0 pieces := by
    change rowsOf t.rowSize t.rows (t.store pieces.flatten).data = _
    rw [hdata, hover, rowsOf_flatten hpieces]
    rfl
  rw [hrowsEq, window_overwrite_self (Nat.zero_le _)]

/-! ## Bit widths -/

/-- A layer has the protected width or its half's normal one. -/
theorem Geometry.bits_cases (g : Geometry) (kv : Kv) (layer : ℕ) :
    (0 < g.config.protectedLayers ∧ g.bits kv layer = g.config.protectedBits) ∨
      g.bits kv layer = kv.pick g.config.keyBits g.config.valueBits := by
  have hbits : g.bits kv layer = g.config.bitsForLayer
      (kv.pick g.config.keyBits g.config.valueBits) layer g.numLayers := by
    cases kv <;> rfl
  rw [hbits, TurboQuantConfig.bitsForLayer]
  split
  case isTrue h =>
    rw [TurboQuantConfig.isProtected, Bool.and_eq_true, decide_eq_true_eq] at h
    exact .inl ⟨h.1, rfl⟩
  case isFalse => exact .inr rfl

theorem Geometry.bits_mem_valid {g : Geometry} (hvalid : g.config.validate = .ok ()) (kv : Kv)
    (layer : ℕ) : g.bits kv layer ∈ TurboQuantConfig.validBits := by
  obtain ⟨hkey, h⟩ := except_guard_eq_ok.1 hvalid
  obtain ⟨hvalue, h⟩ := except_guard_eq_ok.1 h
  obtain ⟨hprotected, -⟩ := except_guard_eq_ok.1 h
  rw [not_not] at hkey hvalue hprotected
  rcases g.bits_cases kv layer with ⟨-, hbits⟩ | hbits
  · rw [hbits]
    exact hprotected
  · rw [hbits]
    cases kv
    · exact hkey
    · exact hvalue

/-- Every width a layer has is among those that have a centroid table. -/
theorem Geometry.bits_mem_distinct (g : Geometry) (kv : Kv) (layer : ℕ) :
    g.bits kv layer ∈ g.config.distinctBitWidths := by
  rw [TurboQuantConfig.distinctBitWidths, List.mem_dedup, List.mem_mergeSort, List.mem_append]
  rcases g.bits_cases kv layer with ⟨hpos, hbits⟩ | hbits
  · rw [if_pos hpos, hbits]
    exact .inr (List.mem_singleton_self _)
  · rw [hbits]
    cases kv <;> simp [Kv.pick]

/-! ## One append -/

/-- The scratch tensors after the keys and values were compressed. -/
def compressedScratch (g : Geometry) (q : Quantizer R) (layer : ℕ) (keys values : HeadRows R)
    (scratch : Kv → Part → ByteTensor) : Kv → Part → ByteTensor := fun kv =>
  turboquantCompress q kv layer (kv.pick keys values) (g.bits kv layer) (scratch kv)

/-- The part of an append that comes after the compression. -/
def appendTo (copyError : Kv → Part → ℕ → Option FractureError) (handle : CacheHandle)
    (layer numNew : ℕ) : EStateM Fault QuantizedKvCacheManager Unit := do
  match (← get).sequences.lookup handle with
  | none => throw (invalidHandle handle)
  | some seq =>
    let seq ← if layer = 0 then reserve handle seq numNew else pure seq
    writeNew copyError layer numNew seq

theorem appendTo_of_lookup {c : QuantizedKvCacheManager} {handle : CacheHandle}
    {seq : SequenceBlocks} (hseq : c.sequences.lookup handle = some seq)
    (copyError : Kv → Part → ℕ → Option FractureError) (layer numNew : ℕ) :
    appendTo copyError handle layer numNew c =
      ((if layer = 0 then reserve handle seq numNew else pure seq) >>=
        writeNew copyError layer numNew) c := by
  rw [appendTo, get_bind, hseq]
  by_cases hl : layer = 0
  · simp only [if_pos hl]
  · simp only [if_neg hl]

/-- A device that has no error to report. -/
structure Device.Works (d : Device R) : Prop where
  launch : ∀ kv, d.launchError kv = none
  copy : ∀ kv part i, d.copyError kv part i = none

/-- There is a head of a token to compress. -/
def HeadRows.HasHeads (x : HeadRows R) : Prop := x.rows ≠ [] ∧ x.numKvHeads ≠ 0

theorem HeadRows.HasHeads.not_empty {x : HeadRows R} (h : x.HasHeads) :
    ¬ (x.rows.length = 0 ∨ x.numKvHeads = 0) := by
  rw [List.length_eq_zero_iff, not_or]
  exact h

/-- An append that went through had heads to compress. -/
theorem hasHeads_of_appendKv {d : Device R} {handle : CacheHandle} {layer : ℕ}
    {keys values : HeadRows R} {c c' : QuantizedKvCacheManager}
    (h : appendKv d handle layer keys values c = .ok () c') : keys.HasHeads := by
  rw [appendKv, get_bind] at h
  obtain ⟨keyBits, -, h⟩ := lift_bind_eq_ok.1 h
  obtain ⟨valueBits, -, h⟩ := lift_bind_eq_ok.1 h
  obtain ⟨_, -, h⟩ := lift_bind_eq_ok.1 h
  obtain ⟨c₁, hcompress, -⟩ := unit_bind_eq_ok.1 h
  rw [compress] at hcompress
  split at hcompress
  case isTrue => cases hcompress
  case isFalse hblock =>
    rw [List.length_eq_zero_iff, not_or] at hblock
    exact hblock

/-- **An append on a layer of the model**: both halves are compressed before
its sequence is searched. -/
theorem appendKv_eq {g : Geometry} {c : QuantizedKvCacheManager} (hc : Sound g c)
    {d : Device R} (hworks : d.Works) (handle : CacheHandle) {layer : ℕ}
    (hlayer : layer < g.numLayers) {keys values : HeadRows R} (hkeys : keys.HasHeads)
    (hvalues : values.HasHeads) :
    appendKv d handle layer keys values c = appendTo d.copyError handle layer keys.rows.length
      { c with
        scratch := compressedScratch g d.toQuantizer layer keys values c.scratch } := by
  have hbits : ∀ kv, index (c.pool.layerBits kv) layer = .ok (g.bits kv layer) := by
    intro kv
    rw [index_eq_ok, hc.layerBits, List.getElem?_map, List.getElem?_range hlayer, Option.map_some]
  have htable : ∀ kv, c.pool.centroids (g.bits kv layer) = .ok () := by
    intro kv
    rw [QuantizedBlockPool.centroids, hc.centroids, if_pos (g.bits_mem_distinct kv layer)]
  -- the cache after the first and after the second compression
  let c₁ : QuantizedKvCacheManager :=
    { c with
      scratch := fun kv' =>
        if kv' = .k then turboquantCompress d.toQuantizer .k layer keys (g.bits .k layer) (c.scratch .k)
        else c.scratch kv' }
  let c₂ : QuantizedKvCacheManager :=
    { c₁ with
      scratch := fun kv' =>
        if kv' = .v then turboquantCompress d.toQuantizer .v layer values (g.bits .v layer) (c₁.scratch .v)
        else c₁.scratch kv' }
  have hk : compress d .k layer (g.bits .k layer) keys c = .ok () c₁ := by
    rw [compress, if_neg hkeys.not_empty, hworks.launch]
  have hv : compress d .v layer (g.bits .v layer) values c₁ = .ok () c₂ := by
    rw [compress, if_neg hvalues.not_empty, hworks.launch]
  have htable₁ : c₁.pool.centroids (g.bits .v layer) = .ok () := htable .v
  have hboth : { c with
      scratch := compressedScratch g d.toQuantizer layer keys values c.scratch } = c₂ := by
    have hscratch : compressedScratch g d.toQuantizer layer keys values c.scratch =
        c₂.scratch := by
      funext kv
      cases kv <;> rfl
    rw [hscratch]
  rw [hboth]
  unfold appendKv
  rw [get_bind, lift_bind_of_ok (hbits .k), get_bind, lift_bind_of_ok (hbits .v), get_bind,
    lift_bind_of_ok (htable .k), bind_of_ok hk, get_bind, lift_bind_of_ok htable₁, bind_of_ok hv]
  rfl

/-- The append went through, and each new token reads, in each of the four
tensors, the bytes its compression produced. -/
def Stores (g : Geometry) (q : Quantizer R) (handle : CacheHandle) (layer : ℕ)
    (keys values : HeadRows R) (result : EStateM.Result Fault QuantizedKvCacheManager Unit) :
    Prop :=
  ∃ c seq, result = .ok () c ∧ c.sequences.lookup handle = some seq ∧
    keys.rows.length ≤ seq.currentLen ∧
    ∀ kv part i row, (kv.pick keys values).rows[i]? = some row →
      Paging.read blockSize seq.blockTable (c.pool.store kv part layer)
        (seq.currentLen - keys.rows.length + i) =
        some (q.compressed kv part layer (g.bits kv layer) g.numKvHeads g.headDim row)

/-- Keys and values of so many rows, shaped as the model's. -/
structure Fitting (g : Geometry) (keys values : HeadRows R) : Prop where
  heads : ∀ kv : Kv, (kv.pick keys values).numKvHeads = g.numKvHeads
  dim : ∀ kv : Kv, (kv.pick keys values).headDim = g.headDim
  rows : values.rows.length = keys.rows.length
  max : keys.rows.length ≤ g.maxCompressTokens

section

variable {g : Geometry} {c : QuantizedKvCacheManager} {handle : CacheHandle} {seq : SequenceBlocks}
  {layer : ℕ} {keys values : HeadRows R}

/-- The table of a live sequence names blocks of the pool, none twice. -/
theorem Sound.table (hc : Sound g c) (hseq : c.sequences.lookup handle = some seq) :
    seq.blockTable.Nodup ∧ ∀ b ∈ seq.blockTable, b < c.pool.capacity :=
  hc.books.owns hseq

/-- The rows a compression leaves in a scratch tensor as wide as the layer. -/
theorem window_compressedScratch (hvalid : g.config.validate = .ok ()) (hc : Sound g c)
    (q : Quantizer R) (hfit : Fitting g keys values) (layer : ℕ) {kv : Kv} {part : Part}
    (hcols : g.cols kv part layer = g.scratchCols kv part) :
    window (compressedScratch g q layer keys values c.scratch kv part).toRows 0
        keys.rows.length =
      (kv.pick keys values).rows.map
        (q.compressed kv part layer (g.bits kv layer) g.numKvHeads g.headDim) := by
  have hsize : (c.scratch kv part).rowSize = g.cols kv part layer * part.dtype.sizeBytes := by
    rw [ByteTensor.rowSize, hc.scratch_cols, hc.scratch_dtype, hcols]
  have hlen : (kv.pick keys values).rows.length = keys.rows.length := by
    cases kv
    · rfl
    · exact hfit.rows
  have hpieces : ∀ piece ∈ (kv.pick keys values).rows.map
      (q.compressed kv part layer (g.bits kv layer) g.numKvHeads g.headDim),
      piece.length = (c.scratch kv part).rowSize := by
    refine List.forall_mem_map.2 fun row _ => ?_
    rw [hsize]
    exact length_compressed q (Geometry.bits_mem_valid hvalid kv layer) kv part layer _ _ row
  have hwindow := window_toRows_store hpieces (by
    rw [List.length_map, hlen, hc.scratch_rows]
    exact hfit.max)
  rw [List.length_map, hlen] at hwindow
  rw [compressedScratch, turboquantCompress, hfit.heads kv, hfit.dim kv]
  exact hwindow

variable (hc : Sound g c) (hseq : c.sequences.lookup handle = some seq)
  (hlayer : layer < g.numLayers)
include hc hseq hlayer

/-- The write part of an append goes through where the widths agree, at a
sequence with room for the new tokens. -/
theorem writeNew_ok {copyError : Kv → Part → ℕ → Option FractureError}
    (hworks : ∀ kv part i, copyError kv part i = none) {numNew : ℕ} (hmax : numNew ≤ g.maxCompressTokens)
    (hlen : numNew ≤ seq.currentLen)
    (hwidth : ∀ kv part, g.cols kv part layer = g.scratchCols kv part) :
    ∃ pool, writeNew copyError layer numNew seq c = .ok () { c with pool } ∧
      Wrote layer seq.blockTable (seq.currentLen - numNew + 0)
        (fun kv part => window (c.scratch kv part).toRows 0 (numNew - 0)) c.pool pool := by
  have hroom := hc.room.le hseq
  obtain ⟨pool, hw, hwrote⟩ : ∃ pool, writeRows copyError c.scratch layer (seq.currentLen - numNew)
      seq.blockTable numNew 0 c.pool = .ok () pool ∧ _ := by
    refine writeRows_ok hworks ?_ ?_ (hc.table hseq).2 (by rw [hc.numLayers]; exact hlayer) (by omega)
    · intro kv part
      rw [hc.scratch_rows]
      exact hmax
    · intro kv part b _
      rw [hc.block, hwidth, hc.scratch_cols, hc.scratch_dtype]
  refine ⟨pool, ?_, hwrote⟩
  rw [writeNew, lift_bind_of_ok (checkedSub_eq_ok.2 ⟨hlen, rfl⟩), get_bind, onPool, hw]

variable (hvalid : g.config.validate = .ok ()) {d : Device R} (hworks : d.Works)
  (hfit : Fitting g keys values)
include hvalid hworks hfit

/-- The write part of an append, at a sequence with room for the new tokens. -/
theorem writeNew_stores_iff {before : QuantizedKvCacheManager} (hbefore : Sound g before)
    (hscratch : c.scratch = compressedScratch g d.toQuantizer layer keys values before.scratch)
    (hrows : keys.rows ≠ []) (hlen : keys.rows.length ≤ seq.currentLen) :
    Stores g d.toQuantizer handle layer keys values
        (writeNew d.copyError layer keys.rows.length seq c) ↔
      ∀ kv, g.cols kv .packedIndices layer = g.scratchCols kv .packedIndices := by
  have hsub : checkedSub seq.currentLen keys.rows.length =
      .ok (seq.currentLen - keys.rows.length) := checkedSub_eq_ok.2 ⟨hlen, rfl⟩
  have hrun : writeNew d.copyError layer keys.rows.length seq c =
      onPool (writeRows d.copyError c.scratch layer (seq.currentLen - keys.rows.length)
        seq.blockTable keys.rows.length 0) c := by
    rw [writeNew, lift_bind_of_ok hsub, get_bind]
  constructor
  · rintro ⟨c', seq', hok, -⟩ kv
    rw [hrun, onPool] at hok
    cases hw : writeRows d.copyError c.scratch layer (seq.currentLen - keys.rows.length)
      seq.blockTable keys.rows.length 0 c.pool with
    | error e pool =>
      rw [hw] at hok
      cases hok
    | ok u pool =>
      obtain ⟨b, hall⟩ := cols_of_writeRows (List.length_pos_iff.2 hrows) hw
      rw [← hc.scratch_cols, ← hc.block_cols kv .packedIndices b, hall]
  · intro hcond
    have hwidth : ∀ kv part, g.cols kv part layer = g.scratchCols kv part := by
      intro kv part
      cases part
      · exact hcond kv
      · rfl
    obtain ⟨pool, hdone, hwrote⟩ := writeNew_ok hc hseq hlayer hworks.copy hfit.max hlen hwidth
    refine ⟨{ c with pool }, seq, hdone, hseq, hlen, ?_⟩
    intro kv part i row hrow
    have hi : i < (kv.pick keys values).rows.length := (List.getElem?_eq_some_iff.1 hrow).1
    have hsame : (kv.pick keys values).rows.length = keys.rows.length := by
      cases kv
      · rfl
      · exact hfit.rows
    have hwindow := window_compressedScratch hvalid hbefore d.toQuantizer hfit layer (hwidth kv part)
    rw [← hscratch] at hwindow
    have hwritable : Paging.Writable blockSize seq.blockTable (c.pool.store kv part layer) :=
      ⟨by decide, (hc.table hseq).1, fun b hb => by
        rw [QuantizedBlockPool.store, ByteTensor.length_toRows, hc.block_rows]⟩
    have hroom := hc.room.le hseq
    rw [hwrote.written, Nat.add_zero, Nat.sub_zero, hwindow, Paging.read_write hwritable (by
      rw [List.length_map, hsame]; omega), List.length_map, if_pos (by omega),
      Nat.add_sub_cancel_left, List.getElem?_map, hrow, Option.map_some]

/-- **What an append stores**, in any state that the invariant holds of. -/
theorem stores_iff_of_sound
    (henough : layer = 0 → extraBlocks seq.lastBlockFill keys.rows.length ≤ c.pool.freeList.length)
    (hlen : layer ≠ 0 → keys.rows.length ≤ seq.currentLen) :
    Stores g d.toQuantizer handle layer keys values (appendKv d handle layer keys values c) ↔
      (keys.rows ≠ [] ∧ g.numKvHeads ≠ 0) ∧
        ∀ kv, g.cols kv .packedIndices layer = g.scratchCols kv .packedIndices := by
  have hheads : keys.HasHeads ↔ keys.rows ≠ [] ∧ g.numKvHeads ≠ 0 := by
    rw [← hfit.heads .k]
    rfl
  rw [← hheads]
  by_cases hkeys : keys.HasHeads
  case neg =>
    refine iff_of_false ?_ fun h => hkeys h.1
    rintro ⟨c', seq', hok, -⟩
    exact hkeys (hasHeads_of_appendKv hok)
  have hvalues : values.HasHeads := by
    refine ⟨fun hnil => hkeys.1 (List.length_eq_zero_iff.1 ?_), ?_⟩
    · rw [← hfit.rows, hnil]
      rfl
    · rw [show values.numKvHeads = g.numKvHeads from hfit.heads .v]
      exact (hheads.1 hkeys).2
  rw [and_iff_right hkeys]
  let c₁ : QuantizedKvCacheManager :=
    { c with scratch := compressedScratch g d.toQuantizer layer keys values c.scratch }
  have hc₁ : Sound g c₁ := hc.onScratch fun kv part => rfl
  have hseq₁ : c₁.sequences.lookup handle = some seq := hseq
  rw [appendKv_eq hc hworks handle hlayer hkeys hvalues, appendTo_of_lookup hseq₁]
  by_cases hl : layer = 0
  · have hreserved := hc₁.reserve hseq₁ keys.rows.length
    have hrun : reserve handle seq keys.rows.length c₁ =
        .ok (seq.grow (c.pool.freeList.take (extraBlocks seq.lastBlockFill keys.rows.length))
          keys.rows.length) (c₁.grown handle seq keys.rows.length) := by
      rw [reserve_eq (hc₁.books.fill hseq₁), if_pos (henough hl)]
    rw [hrun, state_ok] at hreserved
    rw [if_pos hl, bind_of_ok hrun]
    exact writeNew_stores_iff hreserved (AList.lookup_insert _) hlayer hvalid hworks hfit hc rfl
      hkeys.1 (Nat.le_add_left _ _)
  · rw [if_neg hl, pure_bind]
    exact writeNew_stores_iff hc₁ hseq₁ hlayer hvalid hworks hfit hc rfl hkeys.1 (hlen hl)

end

/-- **What an append stores**, in every state of every run: the compressed
bytes of each new token, exactly where there is a head of a token to
compress and the layer's rows of packed keys and of packed values are as
wide as the widest layer's. -/
theorem appendKv_stores_iff {g : Geometry} (hvalid : g.config.validate = .ok ())
    {alloc : Allocator} {numBlocks : ℕ} {c₀ : QuantizedKvCacheManager}
    (hnew : QuantizedKvCacheManager.new alloc numBlocks g.numLayers g.numKvHeads g.headDim
      g.maxCompressTokens g.config = .ok c₀)
    (calls : List (CacheCall R)) {d : Device R} (hworks : d.Works) {handle : CacheHandle}
    {seq : SequenceBlocks} (hseq : (c₀.afterCalls calls).sequences.lookup handle = some seq)
    {layer : ℕ} (hlayer : layer < g.numLayers) {keys values : HeadRows R}
    (hfit : Fitting g keys values)
    (henough : layer = 0 → extraBlocks seq.lastBlockFill keys.rows.length ≤
      (c₀.afterCalls calls).pool.freeList.length)
    (hlen : layer ≠ 0 → keys.rows.length ≤ seq.currentLen) :
    Stores g d.toQuantizer handle layer keys values
        (appendKv d handle layer keys values (c₀.afterCalls calls)) ↔
      (keys.rows ≠ [] ∧ g.numKvHeads ≠ 0) ∧
        ∀ kv, g.cols kv .packedIndices layer = g.scratchCols kv .packedIndices :=
  stores_iff_of_sound (sound_afterCalls (Sound.new hnew) calls) hseq hlayer hvalid hworks hfit
    henough hlen

/-! ## Two configurations -/

theorem length_zeros (rows cols : ℕ) (dtype : DType) :
    (List.replicate (rows * (cols * dtype.sizeBytes)) (0 : UInt8)).length =
      rows * (cols * dtype.sizeBytes) := List.length_replicate

/-- Device memory that starts out as zeros. -/
def zeroAllocator : Allocator := fun _ rows cols dtype =>
  .ok ⟨List.replicate (rows * (cols * dtype.sizeBytes)) 0, length_zeros rows cols dtype⟩

/-- A device that has no error to report, and answers with zeros. -/
def zeroDevice : Device Unit :=
  ⟨⟨fun _ _ _ _ _ _ => 0, fun _ _ => 0⟩, fun _ => none, fun _ _ _ => none⟩

theorem works_zeroDevice : zeroDevice.Works := ⟨fun _ => rfl, fun _ _ _ => rfl⟩

/-- One token of one head. -/
def oneToken : HeadRows Unit := ⟨[()], 1, 8⟩

theorem hasHeads_oneToken : oneToken.HasHeads := ⟨List.cons_ne_nil _ _, Nat.one_ne_zero⟩

theorem fitting_oneToken {numLayers : ℕ} {config : TurboQuantConfig} :
    Fitting ⟨numLayers, 1, 8, 4, config⟩ oneToken oneToken :=
  ⟨fun kv => by cases kv <;> rfl, fun kv => by cases kv <;> rfl, rfl, (by decide : 1 ≤ 4)⟩

/-- The default widths, with no layer protected. -/
theorem uniform_layers_stored :
    let g : Geometry := ⟨2, 1, 8, 4, ⟨4, 2, 8, 0⟩⟩
    ∃ c₀, QuantizedKvCacheManager.new zeroAllocator 2 2 1 8 4 ⟨4, 2, 8, 0⟩ = .ok c₀ ∧
      Stores g zeroDevice.toQuantizer 0 0 oneToken oneToken
        (appendKv zeroDevice 0 0 oneToken oneToken
          (c₀.afterCalls [(.alloc : CacheCall Unit)])) := by
  intro g
  have hwidth : ∀ kv, Geometry.cols ⟨2, 1, 8, 4, ⟨4, 2, 8, 0⟩⟩ kv .packedIndices 0 =
      Geometry.scratchCols ⟨2, 1, 8, 4, ⟨4, 2, 8, 0⟩⟩ kv .packedIndices := by
    intro kv
    cases kv <;> decide
  refine ⟨_, rfl, ?_⟩
  exact (appendKv_stores_iff (g := g) rfl
    (show QuantizedKvCacheManager.new zeroAllocator 2 _ _ _ _ _ = .ok _ from rfl) [.alloc]
    works_zeroDevice (show _ = some (⟨[0], 0, 0⟩ : SequenceBlocks) from rfl) (by decide)
    fitting_oneToken (fun _ => by decide) (fun h => absurd rfl h)).2
    ⟨⟨List.cons_ne_nil _ _, Nat.one_ne_zero⟩, hwidth⟩

/-- The widths when the first and the last layer are protected. -/
def protectedEnds : TurboQuantConfig := ⟨4, 2, 8, 1⟩

/-- After an append on layer 0 that goes through, the append on layer 1
fails. -/
structure RefusedBetweenEnds (c₀ c₁ c₂ : QuantizedKvCacheManager) : Prop where
  made : QuantizedKvCacheManager.new zeroAllocator 2 3 1 8 4 protectedEnds = .ok c₀
  first : appendKv zeroDevice 0 0 oneToken oneToken
    (c₀.afterCalls [(.alloc : CacheCall Unit)]) = .ok () c₁
  second : appendKv zeroDevice 0 1 oneToken oneToken c₁ =
    .error (.error (.invalidShape "copy_rows: src column shape [8] != dst column shape [4]")) c₂

theorem append_between_ends : ∃ c₀ c₁ c₂, RefusedBetweenEnds c₀ c₁ c₂ := by
  let g : Geometry := ⟨3, 1, 8, 4, protectedEnds⟩
  obtain ⟨c₀, hnew, rfl⟩ : ∃ c₀,
      QuantizedKvCacheManager.new zeroAllocator 2 3 1 8 4 protectedEnds = .ok c₀ ∧
        (QuantizedKvCacheManager.new zeroAllocator 2 3 1 8 4 protectedEnds).toOption.get rfl = c₀ :=
    ⟨_, rfl, rfl⟩
  have hsound : Sound g _ := sound_afterCalls (Sound.new hnew) [(.alloc : CacheCall Unit)]
  have hok := (appendKv_eq hsound works_zeroDevice 0 (show 0 < 3 by decide) hasHeads_oneToken
    hasHeads_oneToken).trans (eq_ok_of_isOk (by decide +kernel))
  have hsound₁ := hsound.append zeroDevice 0 0 oneToken oneToken
  rw [hok] at hsound₁
  have hrefused := appendKv_eq hsound₁ works_zeroDevice 0 (show 1 < 3 by decide) hasHeads_oneToken
    hasHeads_oneToken
  exact ⟨_, _, _, hnew, hok, hrefused.trans (eq_error_of_error? (by decide +kernel))⟩

/-- With the first and the last layer protected, the layer between them is
narrower than the scratch tensors. -/
theorem narrow_layer_refused :
    protectedEnds.validate = .ok () ∧ ∃ c₀ c₁ c₂, RefusedBetweenEnds c₀ c₁ c₂ :=
  ⟨rfl, append_between_ends⟩

/-- **The quantized cache loses no block**, whatever calls are made of it and
however they end, and every table has room for its sequence's tokens. -/
theorem afterCalls_books {g : Geometry} {alloc : Allocator} {numBlocks : ℕ}
    {c₀ : QuantizedKvCacheManager}
    (hnew : QuantizedKvCacheManager.new alloc numBlocks g.numLayers g.numKvHeads g.headDim
      g.maxCompressTokens g.config = .ok c₀) (calls : List (CacheCall R)) :
    ((c₀.afterCalls calls).pool.freeList ++ (c₀.afterCalls calls).twin.blocksInUse).Perm
        (List.range (c₀.afterCalls calls).pool.capacity) ∧ (c₀.afterCalls calls).twin.Roomy := by
  have hsound := sound_afterCalls (Sound.new hnew) calls
  exact ⟨hsound.books.perm, hsound.room⟩

/-- A run with an append that goes through and one that fails. -/
theorem afterCalls_books_pair :
    ∃ c₀ c₁ c₂, RefusedBetweenEnds c₀ c₁ c₂ ∧
      (c₂.pool.freeList ++ c₂.twin.blocksInUse).Perm (List.range c₂.pool.capacity) ∧
      c₂.twin.Roomy := by
  obtain ⟨c₀, c₁, c₂, h⟩ := append_between_ends
  have hbooks := afterCalls_books (g := ⟨3, 1, 8, 4, protectedEnds⟩) h.made
    [.alloc, .append zeroDevice 0 0 oneToken oneToken, .append zeroDevice 0 1 oneToken oneToken]
  have hend : c₀.afterCalls [.alloc, .append zeroDevice 0 0 oneToken oneToken,
      .append zeroDevice 0 1 oneToken oneToken] = c₂ := by
    change state (appendKv zeroDevice 0 1 oneToken oneToken
      (state (appendKv zeroDevice 0 0 oneToken oneToken (c₀.afterCalls [.alloc])))) = c₂
    rw [h.first, state_ok, h.second]
    rfl
  rw [hend] at hbooks
  exact ⟨c₀, c₁, c₂, h, hbooks⟩

end Fracture.TurboQuant
