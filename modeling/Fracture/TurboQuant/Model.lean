import Fracture.Common.Endian
import Fracture.Core.Tensor
import Fracture.Engine.Model
import Mathlib.Data.List.Sort

/-!
# The quantized key-value cache

The quantized cache keeps, in the place of a token's keys and values, a
few bits for each coordinate and a norm for each head. Layers may differ
in their bit width, so the blocks of different layers differ in the width
of their rows. An append compresses the new rows into scratch tensors,
which all layers share, and copies them from there into the blocks row by
row.

Device tensors are kept as flat bytes with their shape: the compression
kernel writes rows of its own width one behind the other, and the row
copy reads rows of the scratch tensor's width.
-/

namespace Fracture.TurboQuant

open Effect Rows LittleEndian

/-! ## Configuration -/

structure TurboQuantConfig where
  /-- Key quantization bits for normal layers. -/
  keyBits : ℕ
  /-- Value quantization bits for normal layers. -/
  valueBits : ℕ
  /-- Bit width for protected layers. -/
  protectedBits : ℕ
  /-- Number of first and last layers to protect with higher bits. -/
  protectedLayers : ℕ
deriving DecidableEq, Repr

namespace TurboQuantConfig

variable (c : TurboQuantConfig) (layer numLayers : ℕ)

def validBits : List ℕ := [2, 4, 8]

def validate : Except Fault Unit :=
  let keyBits := c.keyBits
  let valueBits := c.valueBits
  let protectedBits := c.protectedBits
  if c.keyBits ∉ validBits then
    err (.modelConfig s!"TurboQuant key_bits must be 2, 4, or 8, got {keyBits}")
  else if c.valueBits ∉ validBits then
    err (.modelConfig s!"TurboQuant value_bits must be 2, 4, or 8, got {valueBits}")
  else if c.protectedBits ∉ validBits then
    err (.modelConfig s!"TurboQuant protected_bits must be 2, 4, or 8, got {protectedBits}")
  else .ok ()

/-- A layer is protected: one of the first or the last few. -/
def isProtected : Bool :=
  0 < c.protectedLayers &&
    (layer < c.protectedLayers || numLayers - c.protectedLayers ≤ layer)

/-- The width of a layer that has `normal` bits unless it is protected. -/
def bitsForLayer (normal layer numLayers : ℕ) : ℕ :=
  if c.isProtected layer numLayers then c.protectedBits else normal

def keyBitsForLayer : ℕ :=
  c.bitsForLayer c.keyBits layer numLayers

def valueBitsForLayer : ℕ :=
  c.bitsForLayer c.valueBits layer numLayers

/-- The distinct bit widths in use. -/
def distinctBitWidths : List ℕ :=
  let bits := [c.keyBits, c.valueBits] ++ if 0 < c.protectedLayers then [c.protectedBits] else []
  bits.mergeSort.dedup

end TurboQuantConfig

/-- Bytes of one head's indices. -/
def packedDimPerHead (headDim bits : ℕ) : ℕ := (headDim * bits + 7) / 8

def bytesPerBlockLayer (numKvHeads headDim keyBits valueBits : ℕ) : ℕ :=
  let kPackedBytes := blockSize * numKvHeads * packedDimPerHead headDim keyBits
  let vPackedBytes := blockSize * numKvHeads * packedDimPerHead headDim valueBits
  let kNormBytes := blockSize * numKvHeads * 2
  let vNormBytes := blockSize * numKvHeads * 2
  kPackedBytes + vPackedBytes + kNormBytes + vNormBytes

/-! ## Device tensors -/

/-- A tensor of two dimensions on the device. -/
structure ByteTensor where
  rows : ℕ
  cols : ℕ
  dtype : DType
  data : List UInt8
  /-- Its memory has a place for each element. -/
  length_data : data.length = rows * (cols * dtype.sizeBytes)

namespace ByteTensor

def rowSize (t : ByteTensor) : ℕ := t.cols * t.dtype.sizeBytes

/-- The bytes of each row. -/
def toRows (t : ByteTensor) : List (List UInt8) := rowsOf t.rowSize t.rows t.data

theorem length_stored (data bytes : List UInt8) :
    ((overwrite data 0 bytes).take data.length).length = data.length := by
  rw [List.length_take, overwrite, List.length_append, List.length_append, List.length_drop,
    List.length_take]
  omega

/-- Bytes written from the front of the tensor's memory. Nothing keeps a
kernel inside it: what falls behind its end is no longer the tensor's. -/
def store (t : ByteTensor) (bytes : List UInt8) : ByteTensor where
  rows := t.rows
  cols := t.cols
  dtype := t.dtype
  data := (overwrite t.data 0 bytes).take t.data.length
  length_data := (length_stored t.data bytes).trans t.length_data

end ByteTensor

/-- The name of an element type in an error. -/
def dtypeText : DType → String
  | .fp16 => "FP16"
  | .fp32 => "FP32"
  | .bf16 => "BF16"
  | .int8 => "INT8"
  | .int4 => "INT4"

/-- Copy rows between two tensors, as the CUDA backend does: `src` and
`dst` may have any number of rows, but only rows of one shape and type. -/
def copyRows (src dst : ByteTensor) (srcOffset dstOffset count : ℕ) : Except Fault ByteTensor :=
  let srcEnd := srcOffset + count
  let dstEnd := dstOffset + count
  let srcRows := src.rows
  let dstRows := dst.rows
  let srcCols := src.cols
  let dstCols := dst.cols
  let srcDtype := dtypeText src.dtype
  let dstDtype := dtypeText dst.dtype
  if hsrc : src.rows < srcOffset + count then
    err (.invalidShape
      s!"copy_rows: src_offset({srcOffset}) + count({count}) = {srcEnd} exceeds src rows({srcRows})")
  else if hdst : dst.rows < dstOffset + count then
    err (.invalidShape
      s!"copy_rows: dst_offset({dstOffset}) + count({count}) = {dstEnd} exceeds dst rows({dstRows})")
  else if hcols : src.cols ≠ dst.cols then
    err (.invalidShape
      s!"copy_rows: src column shape [{srcCols}] != dst column shape [{dstCols}]")
  else if hdtype : src.dtype ≠ dst.dtype then
    err (.invalidShape s!"copy_rows: src dtype {srcDtype} != dst dtype {dstDtype}")
  else .ok {
    rows := dst.rows
    cols := dst.cols
    dtype := dst.dtype
    data := overwrite dst.data (dstOffset * src.rowSize)
      (window src.data (srcOffset * src.rowSize) (count * src.rowSize))
    length_data := by
      have hsize : src.rowSize = dst.cols * dst.dtype.sizeBytes := by
        rw [ByteTensor.rowSize, not_ne_iff.1 hcols, not_ne_iff.1 hdtype]
      have hread : srcOffset * src.rowSize + count * src.rowSize ≤ src.data.length := by
        rw [src.length_data, ← Nat.add_mul]
        exact Nat.mul_le_mul_right _ (Nat.not_lt.1 hsrc)
      have hwrite : dstOffset * src.rowSize + count * src.rowSize ≤ dst.data.length := by
        rw [dst.length_data, ← Nat.add_mul, hsize]
        exact Nat.mul_le_mul_right _ (Nat.not_lt.1 hdst)
      rw [length_overwrite (by rw [length_window hread]; exact hwrite), dst.length_data] }

/-! ## Compression -/

/-- Keys or values of shape `[N, num_kv_heads, head_dim]`; `R` is a token's row. -/
structure HeadRows (R : Type) where
  rows : List R
  numKvHeads : ℕ
  headDim : ℕ

/-- What the compression of a row computes, from the rotation of its half
and layer and the centroids of its bit width: the nearest centroid of each
coordinate of each head, and the norm of each head in half precision. -/
structure Quantizer (R : Type) where
  nearest : Kv → ℕ → ℕ → R → ℕ → ℕ → ℕ
  norm : R → ℕ → UInt16

/-- One head's indices in bytes, the first index in the high bits. -/
def packHead (bits headDim : ℕ) (idx : ℕ → ℕ) : List UInt8 :=
  let indexAt := fun d => if d < headDim then idx d else 0
  if bits = 4 then
    (List.range ((headDim + 1) / 2)).map fun pair =>
      UInt8.ofNat (indexAt (pair * 2) <<< 4) ||| UInt8.ofNat (indexAt (pair * 2 + 1) &&& 0x0F)
  else if bits = 2 then
    (List.range ((headDim + 3) / 4)).map fun quad =>
      (List.range 4).foldl
        (fun packed sub => packed ||| UInt8.ofNat (indexAt (quad * 4 + sub) <<< (6 - sub * 2))) 0
  else if bits = 8 then (List.range headDim).map fun d => UInt8.ofNat (idx d)
  else []

/-- The two tensors a block has for a layer's keys or values
(`QuantizedBlockTensors`). -/
inductive Part
  | packedIndices
  | norms
deriving DecidableEq, Repr

/-- What the device does in one append: what the compression computes, and
which launches and copies it reports an error for, a copy by the row of the
scratch tensor it starts at. -/
structure Device (R : Type) extends Quantizer R where
  launchError : Kv → Option FractureError
  copyError : Kv → Part → ℕ → Option FractureError

/-- What the kernel produces for a token, head by head. -/
def Quantizer.compressed {R : Type} (q : Quantizer R) (kv : Kv) (part : Part) (layer bits : ℕ)
    (numKvHeads headDim : ℕ) (row : R) : List UInt8 :=
  match part with
  | .packedIndices => (List.range numKvHeads).flatMap fun head =>
      packHead bits headDim (q.nearest kv layer bits row head)
  | .norms => (List.range numKvHeads).flatMap fun head => toBytes 2 (q.norm row head).toNat

/-- The compression kernel: token `t`'s bytes go to `t` times the bytes of a
token, whatever the row size of the tensor they are written to. -/
def turboquantCompress {R : Type} (q : Quantizer R) (kv : Kv) (layer : ℕ) (input : HeadRows R)
    (bits : ℕ) (out : Part → ByteTensor) : Part → ByteTensor := fun part =>
  (out part).store
    (input.rows.map (q.compressed kv part layer bits input.numKvHeads input.headDim)).flatten

/-! ## The pool -/

/-- The columns and the element type of a tensor of a part. -/
def Part.cols (numKvHeads headDim bits : ℕ) : Part → ℕ
  | .packedIndices => numKvHeads * packedDimPerHead headDim bits
  | .norms => numKvHeads

def Part.dtype : Part → DType
  | .packedIndices => .int8
  | .norms => .fp16

/-- A pool of quantized blocks. `blocks .k .norms block layer` are
`k_blocks[block][layer].norms`, and the others likewise, for
`block < capacity` and `layer < numLayers`. -/
structure QuantizedBlockPool where
  blocks : Kv → Part → ℕ → ℕ → ByteTensor
  /-- Stack of free block ids, top first. -/
  freeList : List ℕ
  capacity : ℕ
  numLayers : ℕ
  numKvHeads : ℕ
  headDim : ℕ
  /-- The bit width of each layer's keys and values. -/
  layerBits : Kv → List ℕ
  /-- The bit widths that have a centroid table. -/
  centroidTables : List ℕ

/-- Device memory for a tensor: whatever is in it. The number tells apart
the allocations of one shape. -/
abbrev Allocator := ℕ → (rows cols : ℕ) → (dtype : DType) →
  Except FractureError { data : List UInt8 // data.length = rows * (cols * dtype.sizeBytes) }

/-- A tensor as allocated. Where there was no memory the caller has failed
already, and what stands here is never used. -/
def Allocator.tensor (alloc : Allocator) (n rows cols : ℕ) (dtype : DType) : ByteTensor :=
  match alloc n rows cols dtype with
  | .ok data => ⟨rows, cols, dtype, data.1, data.2⟩
  | .error _ =>
    ⟨rows, cols, dtype, List.replicate (rows * (cols * dtype.sizeBytes)) 0, List.length_replicate⟩

namespace QuantizedBlockPool

/-- The name of a tensor in the error of its allocation. -/
def tensorText : Kv → Part → String
  | .k, .packedIndices => "K"
  | .k, .norms => "K norms"
  | .v, .packedIndices => "V"
  | .v, .norms => "V norms"

/-- The tensors of a block on a layer, in the order they are allocated and
written. -/
def tensors : List (Kv × Part) :=
  [(.k, .packedIndices), (.k, .norms), (.v, .packedIndices), (.v, .norms)]

/-- The number of a block tensor's allocation. -/
def allocation (numLayers : ℕ) (kv : Kv) (part : Part) (blockId layer : ℕ) : ℕ :=
  (blockId * numLayers + layer) * 4 + tensors.idxOf (kv, part)

def new (alloc : Allocator) (numBlocks numLayers numKvHeads headDim : ℕ)
    (config : TurboQuantConfig) : Except Fault QuantizedBlockPool := do
  let bits := fun kv layer => Kv.pick (config.keyBitsForLayer layer numLayers)
    (config.valueBitsForLayer layer numLayers) kv
  (List.range numBlocks).forM fun blockId =>
    (List.range numLayers).forM fun layer =>
      tensors.forM fun t =>
        match alloc (allocation numLayers t.1 t.2 blockId layer) blockSize
          (t.2.cols numKvHeads headDim (bits t.1 layer)) t.2.dtype with
        | .ok _ => pure ()
        | .error e =>
          let text := e.display
          let name := tensorText t.1 t.2
          err (.kvCache
            s!"quantized block pool {name} alloc failed at block {blockId} layer {layer}: {text}")
  return {
    blocks := fun kv part blockId layer =>
      alloc.tensor (allocation numLayers kv part blockId layer) blockSize
        (part.cols numKvHeads headDim (bits kv layer)) part.dtype
    freeList := List.range numBlocks
    capacity := numBlocks
    numLayers, numKvHeads, headDim
    layerBits := fun kv => (List.range numLayers).map (bits kv)
    centroidTables := config.distinctBitWidths }

/-- Bytes per block, the sum over all layers. -/
def bytesPerBlock (p : QuantizedBlockPool) : ℕ :=
  (((p.layerBits .k).zip (p.layerBits .v)).map fun bits =>
    bytesPerBlockLayer p.numKvHeads p.headDim bits.1 bits.2).sum

/-- Take the top block of the free stack. -/
def allocBlock : EStateM Fault QuantizedBlockPool ℕ := fun p =>
  match p.freeList with
  | [] => .error (.error (.outOfMemory p.bytesPerBlock 0)) p
  | blockId :: rest => .ok blockId { p with freeList := rest }

section

variable (p : QuantizedBlockPool) (kv : Kv) (part : Part) (blockId layer : ℕ)

/-- Put a block back on the free stack. -/
def freeBlock (blockId : ℕ) : QuantizedBlockPool :=
  { p with freeList := blockId :: p.freeList }

/-- A tensor of a block on a layer (`k_packed`, `k_norms`, `v_packed`,
`v_norms`). -/
def tensor :
    Except Fault ByteTensor :=
  if blockId < p.capacity ∧ layer < p.numLayers then .ok (p.blocks kv part blockId layer)
  else .error (.panicked .indexOutOfBounds)

/-- The pool after a tensor of a block on a layer was written. -/
def setTensor (t : ByteTensor) : QuantizedBlockPool :=
  { p with
    blocks := fun kv' part' b l =>
      if kv' = kv ∧ part' = part ∧ b = blockId ∧ l = layer then t else p.blocks kv' part' b l }

/-- The centroid table of a bit width. -/
def centroids (bits : ℕ) : Except Fault Unit :=
  if bits ∈ p.centroidTables then .ok () else .error (.panicked .entryNotFound)

end

/-- `copy_rows` into a block tensor. -/
def copyInto (copyError : Kv → Part → ℕ → Option FractureError) (src : Kv → Part → ByteTensor)
    (kv : Kv) (part : Part) (blockId layer srcOffset dstOffset count : ℕ) :
    EStateM Fault QuantizedBlockPool Unit := fun p =>
  match p.tensor kv part blockId layer >>= fun dst =>
    copyRows (src kv part) dst srcOffset dstOffset count with
  | .error e => .error e p
  | .ok t =>
    match copyError kv part srcOffset with
    | some e => .error (.error e) p
    | none => .ok () (p.setTensor kv part blockId layer t)

end QuantizedBlockPool

/-! ## The manager -/

/-- The manager: a pool, the blocks of each live sequence, and the scratch
tensors of the compression. -/
structure QuantizedKvCacheManager where
  pool : QuantizedBlockPool
  sequences : AList fun _ : CacheHandle => SequenceBlocks
  nextId : ℕ
  scratch : Kv → Part → ByteTensor

/-- The growth loop of an append on layer 0: fill the last block, and
whenever it is full take a new one and push it into the table. -/
def growTable (fill remaining : ℕ) : EStateM Fault (QuantizedBlockPool × List ℕ) ℕ
  | (pool, table) =>
    if remaining = 0 then .ok fill (pool, table)
    else if blockSize - fill = 0 then
      match pool.allocBlock with
      | .error e pool => .error e (pool, table)
      | .ok newBlock pool => growTable 0 remaining (pool, table ++ [newBlock])
    else
      let toWrite := min remaining (blockSize - fill)
      growTable (fill + toWrite) (remaining - toWrite) (pool, table)
termination_by 2 * remaining + fill / blockSize
decreasing_by
  all_goals simp only [blockSize] at *
  all_goals omega

/-- The write loop of an append: the compressed rows go from the scratch
tensors to the blocks the table names, one block at a time. -/
def writeRows (copyError : Kv → Part → ℕ → Option FractureError)
    (scratch : Kv → Part → ByteTensor) (layer startToken : ℕ) (table : List ℕ)
    (numNew written : ℕ) : EStateM Fault QuantizedBlockPool Unit :=
  if written < numNew then do
    let copy := QuantizedBlockPool.copyInto copyError scratch
    let globalPos := startToken + written
    let offsetInBlock := globalPos % blockSize
    let blockId ← index table (globalPos / blockSize)
    let toWrite := min (numNew - written) (blockSize - offsetInBlock)
    copy .k .packedIndices blockId layer written offsetInBlock toWrite
    copy .k .norms blockId layer written offsetInBlock toWrite
    copy .v .packedIndices blockId layer written offsetInBlock toWrite
    copy .v .norms blockId layer written offsetInBlock toWrite
    writeRows copyError scratch layer startToken table numNew (written + toWrite)
  else
    pure ()
termination_by numNew - written
decreasing_by
  have hmod : (startToken + written) % blockSize < blockSize := Nat.mod_lt _ (by decide)
  omega

namespace QuantizedKvCacheManager

/-- The widest row of packed indices over all layers of a model. -/
def maxPackedDim (config : TurboQuantConfig) (numLayers numKvHeads headDim : ℕ) (kv : Kv) : ℕ :=
  ((List.range numLayers).map fun layer =>
    let bits := kv.pick (config.keyBitsForLayer layer numLayers)
      (config.valueBitsForLayer layer numLayers)
    numKvHeads * packedDimPerHead headDim bits).foldr max 0

/-- A cache with every block free, no sequence, and scratch tensors for the
widest layer. -/
def new (alloc : Allocator) (numBlocks numLayers numKvHeads headDim maxCompressTokens : ℕ)
    (config : TurboQuantConfig) : Except Fault QuantizedKvCacheManager := do
  let pool ← QuantizedBlockPool.new alloc numBlocks numLayers numKvHeads headDim config
  let cols := fun (kv : Kv) (part : Part) =>
    match part with
    | .packedIndices => maxPackedDim config numLayers numKvHeads headDim kv
    | .norms => numKvHeads
  let number := fun kv part =>
    numBlocks * numLayers * 4 + QuantizedBlockPool.tensors.idxOf (kv, part)
  QuantizedBlockPool.tensors.forM fun t =>
    match alloc (number t.1 t.2) maxCompressTokens (cols t.1 t.2) t.2.dtype with
    | .ok _ => pure ()
    | .error e => err e
  return {
    pool
    sequences := ∅
    nextId := 0
    scratch := fun kv part =>
      alloc.tensor (number kv part) maxCompressTokens (cols kv part) part.dtype }

/-- Run a computation on the cache's pool. -/
def onPool {α : Type} (x : EStateM Fault QuantizedBlockPool α) :
    EStateM Fault QuantizedKvCacheManager α := fun c =>
  match x c.pool with
  | .ok a pool => .ok a { c with pool }
  | .error e pool => .error e { c with pool }

/-- The error of a call on a handle that is not live. -/
def invalidHandle (handle : CacheHandle) : Fault :=
  .error (.kvCache s!"invalid handle: {handle}")

/-- Allocate a new sequence with one block. The id is used up even when
there is no block. -/
def alloc : EStateM Fault QuantizedKvCacheManager CacheHandle := fun c =>
  let id := c.nextId
  match c.pool.allocBlock with
  | .error e pool => .error e { c with pool, nextId := id + 1 }
  | .ok firstBlock pool =>
    .ok id { c with
      pool
      sequences := c.sequences.insert id
        { blockTable := [firstBlock], lastBlockFill := 0, currentLen := 0 }
      nextId := id + 1 }

/-- Compress keys or values into the scratch tensors. The grid of the launch
has a block for each head of each token, and CUDA refuses a grid that has
none. -/
def compress {R : Type} (d : Device R) (kv : Kv) (layer bits : ℕ) (input : HeadRows R) :
    EStateM Fault QuantizedKvCacheManager Unit := fun c =>
  if input.rows.length = 0 ∨ input.numKvHeads = 0 then
    .error (.error (.backend "CUDA error (9): invalid configuration argument")) c
  else
    match d.launchError kv with
    | some e => .error (.error e) c
    | none => .ok () { c with
        scratch := fun kv' =>
          if kv' = kv then turboquantCompress d.toQuantizer kv layer input bits (c.scratch kv)
          else c.scratch kv' }

/-- The part of an append that runs on layer 0 only: grow the table, and
when that went through move the fill and the length on. -/
def reserve (handle : CacheHandle) (seq : SequenceBlocks) (numNew : ℕ) :
    EStateM Fault QuantizedKvCacheManager SequenceBlocks := fun c =>
  match growTable seq.lastBlockFill numNew (c.pool, seq.blockTable) with
  | .error e (pool, table) =>
    .error e { c with pool, sequences := c.sequences.insert handle { seq with blockTable := table } }
  | .ok fill (pool, table) =>
    let seq' := { blockTable := table, lastBlockFill := fill, currentLen := seq.currentLen + numNew }
    .ok seq' { c with pool, sequences := c.sequences.insert handle seq' }

/-- The write part of an append. -/
def writeNew (copyError : Kv → Part → ℕ → Option FractureError) (layer numNew : ℕ)
    (seq : SequenceBlocks) :
    EStateM Fault QuantizedKvCacheManager Unit := do
  let startToken ← checkedSub seq.currentLen numNew
  onPool (writeRows copyError (← get).scratch layer startToken seq.blockTable numNew 0)

/-- Append compressed keys and values for one layer. -/
def appendKv {R : Type} (d : Device R) (handle : CacheHandle) (layer : ℕ)
    (keys values : HeadRows R) : EStateM Fault QuantizedKvCacheManager Unit := do
  let numNew := keys.rows.length
  let layerKeyBits ← index ((← get).pool.layerBits .k) layer
  let layerValueBits ← index ((← get).pool.layerBits .v) layer
  (← get).pool.centroids layerKeyBits
  compress d .k layer layerKeyBits keys
  (← get).pool.centroids layerValueBits
  compress d .v layer layerValueBits values
  match (← get).sequences.lookup handle with
  | none => throw (invalidHandle handle)
  | some seq =>
    let seq ← if layer = 0 then reserve handle seq numNew else pure seq
    writeNew d.copyError layer numNew seq

/-- Free a sequence's blocks and forget it. -/
def free (handle : CacheHandle) : EStateM Fault QuantizedKvCacheManager Unit := fun c =>
  match c.sequences.lookup handle with
  | none => .error (invalidHandle handle) c
  | some seq =>
    .ok () { c with
      pool := seq.blockTable.foldl QuantizedBlockPool.freeBlock c.pool
      sequences := c.sequences.erase handle }

end QuantizedKvCacheManager

end Fracture.TurboQuant
