import Fracture.Core.Backend
import Mathlib.Data.List.AList

/-!
# The paged key-value cache

The cache keeps the keys and values of many sequences in one pool of
fixed-size blocks. A sequence owns the blocks its table names; the pool
keeps the others on a stack. An append on layer 0 takes the blocks it
needs and moves the length on, and appends on the other layers only
write rows behind the old length.

Every call returns the cache as it is when the call ends, also when it
ends with an error or a panic: the growth loop of an append pushes each
new block into the table as soon as it has it.
-/

namespace Fracture

open Effect

variable {R W F : Type}

/-- Which half of the cache: the keys or the values. -/
inductive Kv
  | k
  | v
  deriving DecidableEq, Repr

/-- One value for each half. -/
def Kv.pick {α : Type} (keys values : α) : Kv → α
  | .k => keys
  | .v => values

/-- A pool of cache blocks. `blocks .k block layer` are the key rows of
one block on one layer (`k_blocks[block][layer]`), and `blocks .v` are
the value rows, for `block < capacity` and `layer < numLayers`. -/
structure BlockPool (R : Type) where
  blocks : Kv → ℕ → ℕ → List R
  /-- Stack of free block ids, top first. -/
  freeList : List ℕ
  capacity : ℕ
  numLayers : ℕ
  numKvHeads : ℕ
  headDim : ℕ

namespace BlockPool

/-- Allocate the key and value tensors of every block. `fresh` is what
the backend hands back for a block and a layer. All blocks start free,
block 0 on top of the stack. -/
def new (fresh : ℕ → ℕ → Except FractureError (List R × List R))
    (numBlocks numLayers numKvHeads headDim : ℕ) : Except Fault (BlockPool R) := do
  (List.range numBlocks).forM fun blockId =>
    (List.range numLayers).forM fun layer =>
      match fresh blockId layer with
      | .ok _ => pure ()
      | .error e =>
        let text := e.display
        err (.kvCache s!"block pool alloc failed at block {blockId}: {text}")
  return {
    blocks := fun kv blockId layer =>
      match fresh blockId layer with
      | .ok (keys, values) => kv.pick keys values
      | .error _ => []
    freeList := List.range numBlocks
    capacity := numBlocks
    numLayers, numKvHeads, headDim }

/-- Bytes per block across all layers: keys and values, two bytes each. -/
def bytesPerBlock (p : BlockPool R) : ℕ :=
  blockSize * p.numKvHeads * p.headDim * 2 * 2 * p.numLayers

/-- Take the top block of the free stack. -/
def allocBlock : EStateM Fault (BlockPool R) ℕ := fun p =>
  match p.freeList with
  | [] => .error (.error (.outOfMemory p.bytesPerBlock 0)) p
  | blockId :: rest => .ok blockId { p with freeList := rest }

/-- Put a block back on the free stack. -/
def freeBlock (p : BlockPool R) (blockId : ℕ) : BlockPool R :=
  { p with freeList := blockId :: p.freeList }

/-- The key or value rows of a block on a layer (`k_tensor`, `v_tensor`). -/
def tensor (p : BlockPool R) (kv : Kv) (blockId layer : ℕ) : Except Fault (List R) :=
  if blockId < p.capacity ∧ layer < p.numLayers then .ok (p.blocks kv blockId layer)
  else .error (.panicked .indexOutOfBounds)

/-- The pool after the key or value rows of a block on a layer were written. -/
def setTensor (p : BlockPool R) (kv : Kv) (blockId layer : ℕ) (t : List R) : BlockPool R :=
  { p with
    blocks := fun kv' b l =>
      if kv' = kv ∧ b = blockId ∧ l = layer then t else p.blocks kv' b l }

/-- `copy_rows` into a block tensor: the source, its first row, the offset
in the block and the row count. -/
def copyInto (b : Backend R W F) (kv : Kv) (src : List R)
    (blockId layer srcOff offset count : ℕ) : EStateM Fault (BlockPool R) Unit := fun p =>
  match p.tensor kv blockId layer >>= fun dst => b.copyRows src dst srcOff offset count with
  | .ok t => .ok () (p.setTensor kv blockId layer t)
  | .error e => .error e p

def numFree (p : BlockPool R) : ℕ := p.freeList.length

end BlockPool

/-- The blocks of one sequence. -/
structure SequenceBlocks where
  /-- Logical block index to physical block id. -/
  blockTable : List ℕ
  /-- Tokens in the last block of the table. -/
  lastBlockFill : ℕ
  /-- Tokens stored across all blocks. -/
  currentLen : ℕ
  deriving DecidableEq, Repr

/-- A sequence's cache, by the id it was allocated under. -/
abbrev CacheHandle := ℕ

/-- The cache: a pool and the blocks of each live sequence. -/
structure PagedKvCacheManager (R : Type) where
  pool : BlockPool R
  sequences : AList fun _ : CacheHandle => SequenceBlocks
  nextId : ℕ

/-- The growth loop of an append on layer 0: fill the last block, and
whenever it is full take a new one and push it into the table. Returns
the new fill; the state is the pool and the table. -/
def growTable (fill remaining : ℕ) : EStateM Fault (BlockPool R × List ℕ) ℕ
  | (pool, table) =>
    if remaining = 0 then .ok fill (pool, table)
    else if blockSize - fill = 0 then
      match pool.allocBlock with
      | .error e pool => .error e (pool, table)
      | .ok newBlock pool => growTable 0 remaining (pool, table ++ [newBlock])
    else
      let toWrite := min remaining (blockSize - fill)
      growTable (fill + toWrite) (remaining - toWrite) (pool, table)
termination_by 2 * remaining + fill / blockSize
decreasing_by
  all_goals simp only [blockSize] at *
  all_goals omega

/-- The write loop of an append: row `written` and the rows behind it go
to the blocks the table names, from token `startToken + written` on, one
block at a time. -/
def writeRows (b : Backend R W F) (layer startToken : ℕ) (table : List ℕ)
    (keys values : List R) (numNew written : ℕ) : EStateM Fault (BlockPool R) Unit :=
  if written < numNew then do
    let globalPos := startToken + written
    let offsetInBlock := globalPos % blockSize
    let blockId ← index table (globalPos / blockSize)
    let toWrite := min (numNew - written) (blockSize - offsetInBlock)
    BlockPool.copyInto b .k keys blockId layer written offsetInBlock toWrite
    BlockPool.copyInto b .v values blockId layer written offsetInBlock toWrite
    writeRows b layer startToken table keys values numNew (written + toWrite)
  else
    pure ()
termination_by numNew - written
decreasing_by
  have hmod : (startToken + written) % blockSize < blockSize := Nat.mod_lt _ (by decide)
  omega

namespace PagedKvCacheManager

/-- A cache with every block free and no sequence. -/
def new (fresh : ℕ → ℕ → Except FractureError (List R × List R))
    (numBlocks numLayers numKvHeads headDim : ℕ) : Except Fault (PagedKvCacheManager R) := do
  let pool ← BlockPool.new fresh numBlocks numLayers numKvHeads headDim
  return { pool, sequences := ∅, nextId := 0 }

/-- Run a computation on the cache's pool. -/
def onPool {α : Type} (x : EStateM Fault (BlockPool R) α) :
    EStateM Fault (PagedKvCacheManager R) α := fun c =>
  match x c.pool with
  | .ok a pool => .ok a { c with pool }
  | .error e pool => .error e { c with pool }

/-- The error of a call on a handle that is not live. -/
def invalidHandle (handle : CacheHandle) : Fault :=
  .error (.kvCache s!"invalid handle: {handle}")

/-- Allocate a new sequence with one block. The id is used up even when
there is no block. -/
def alloc : EStateM Fault (PagedKvCacheManager R) CacheHandle := fun c =>
  let id := c.nextId
  match c.pool.allocBlock with
  | .error e pool => .error e { c with pool, nextId := id + 1 }
  | .ok firstBlock pool =>
    .ok id {
      pool
      sequences := c.sequences.insert id
        { blockTable := [firstBlock], lastBlockFill := 0, currentLen := 0 }
      nextId := id + 1 }

/-- The part of an append that runs on layer 0 only: grow the table, and
when that went through move the fill and the length on. -/
def reserve (handle : CacheHandle) (seq : SequenceBlocks) (numNew : ℕ) :
    EStateM Fault (PagedKvCacheManager R) SequenceBlocks := fun c =>
  match growTable seq.lastBlockFill numNew (c.pool, seq.blockTable) with
  | .error e (pool, table) =>
    .error e { c with pool, sequences := c.sequences.insert handle { seq with blockTable := table } }
  | .ok fill (pool, table) =>
    let seq' := { blockTable := table, lastBlockFill := fill, currentLen := seq.currentLen + numNew }
    .ok seq' { c with pool, sequences := c.sequences.insert handle seq' }

/-- The write part of an append: the new rows go behind the rows the
sequence had before its length moved on. -/
def writeNew (b : Backend R W F) (layer : ℕ) (keys values : List R) (seq : SequenceBlocks) :
    EStateM Fault (PagedKvCacheManager R) Unit := do
  let startToken ← checkedSub seq.currentLen keys.length
  onPool (writeRows b layer startToken seq.blockTable keys values keys.length 0)

/-- Append key and value rows to a sequence on one layer. -/
def appendKv (b : Backend R W F) (handle : CacheHandle) (layer : ℕ) (keys values : List R) :
    EStateM Fault (PagedKvCacheManager R) Unit := do
  match (← get).sequences.lookup handle with
  | none => throw (invalidHandle handle)
  | some seq =>
    let seq ← if layer = 0 then reserve handle seq keys.length else pure seq
    writeNew b layer keys values seq

/-- Free a sequence's blocks and forget it. -/
def free (handle : CacheHandle) : EStateM Fault (PagedKvCacheManager R) Unit := fun c =>
  match c.sequences.lookup handle with
  | none => .error (invalidHandle handle) c
  | some seq =>
    .ok () { c with
      pool := seq.blockTable.foldl BlockPool.freeBlock c.pool
      sequences := c.sequences.erase handle }

variable (c : PagedKvCacheManager R)

/-- The sequence under a handle, or the error for a handle that is not live. -/
def find (handle : CacheHandle) : Except Fault SequenceBlocks :=
  match c.sequences.lookup handle with
  | none => .error (invalidHandle handle)
  | some seq => .ok seq

def blockTable (handle : CacheHandle) : Except Fault (List ℕ) :=
  return (← c.find handle).blockTable

def seqLen (handle : CacheHandle) : Except Fault ℕ :=
  return (← c.find handle).currentLen

def numFreeBlocks : ℕ := c.pool.numFree

end PagedKvCacheManager

end Fracture
