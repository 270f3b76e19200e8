import Fracture.Common.Assoc
import Fracture.PagedCache.Writes

/-!
# What an append can do

One call of `appendKv` ends in one of four ways (`Appended`): the handle
is not live and nothing happened; the layer is not 0 and rows of the
sequence's own blocks were written; the free stack ran out, in which
case all of it has joined the sequence's table; or the table grew as far
as needed, the length moved on, and rows of the sequence's blocks were
written. Errors and panics of the write loop are among the second and
the fourth. Everything proved about runs of the cache goes through this
case list.
-/

namespace Fracture

open Effect BlockPool

variable {R W F : Type}

/-!
## What the growth loop does

The loop alternates between filling the last block and taking a new one.
Its outcome has a closed form in the fill, the number of new tokens and
the free stack: it takes `extraBlocks` blocks off the stack, or the
whole stack and then fails when there are fewer. In both cases every
block that left the stack is at the end of the table, in the order it
was taken, which is all that conservation of blocks needs.
-/

/-- The blocks an append takes when the last block holds `fill` tokens. -/
def extraBlocks (fill numNew : ℕ) : ℕ :=
  (numNew - (blockSize - fill) + (blockSize - 1)) / blockSize

/-- The tokens in the last block after an append. -/
def fillAfter (fill numNew : ℕ) : ℕ :=
  if numNew = 0 then fill else (fill + numNew - 1) % blockSize + 1

namespace BlockPool

@[simp] theorem allocBlock_nil {p : BlockPool R} (h : p.freeList = []) :
    p.allocBlock = .error (.error (.outOfMemory p.bytesPerBlock 0)) p := by
  simp [allocBlock, h]

@[simp] theorem allocBlock_cons {p : BlockPool R} {b : ℕ} {rest : List ℕ}
    (h : p.freeList = b :: rest) : p.allocBlock = .ok b { p with freeList := rest } := by
  simp [allocBlock, h]

end BlockPool

/-! ## The arithmetic of one turn of the loop -/

variable {fill : ℕ}

theorem extraBlocks_zero : extraBlocks fill 0 = 0 := by
  simp [extraBlocks, blockSize]

variable {numNew : ℕ}

/-- Taking a block for a full last block leaves one block less to take. -/
theorem extraBlocks_full (h : numNew ≠ 0) :
    extraBlocks blockSize numNew = extraBlocks 0 numNew + 1 := by
  simp only [extraBlocks, blockSize]
  omega

/-- Filling up the last block changes nothing about the blocks to take. -/
theorem extraBlocks_write (hfill : fill < blockSize) :
    extraBlocks (fill + min numNew (blockSize - fill)) (numNew - min numNew (blockSize - fill)) =
      extraBlocks fill numNew := by
  simp only [extraBlocks, blockSize] at *
  omega

theorem fillAfter_full (h : numNew ≠ 0) : fillAfter blockSize numNew = fillAfter 0 numNew := by
  simp only [fillAfter, blockSize, if_neg h]
  omega

theorem fillAfter_write (h : numNew ≠ 0) (hfill : fill < blockSize) :
    fillAfter (fill + min numNew (blockSize - fill)) (numNew - min numNew (blockSize - fill)) =
      fillAfter fill numNew := by
  rw [fillAfter, fillAfter, if_neg h]
  by_cases hz : numNew - min numNew (blockSize - fill) = 0
  · rw [if_pos hz]
    simp only [blockSize] at *
    omega
  · rw [if_neg hz]
    simp only [blockSize] at *
    omega

/-! ## The loop -/

/-- The outcome of the growth loop: the blocks it takes leave the stack
from the top and join the table in that order. -/
def growOutcome (fill numNew : ℕ) (s : BlockPool R × List ℕ) :
    EStateM.Result Fault (BlockPool R × List ℕ) ℕ :=
  let n := extraBlocks fill numNew
  if n ≤ s.1.freeList.length then
    .ok (fillAfter fill numNew)
      ({ s.1 with freeList := s.1.freeList.drop n }, s.2 ++ s.1.freeList.take n)
  else
    .error (.error (.outOfMemory s.1.bytesPerBlock 0))
      ({ s.1 with freeList := [] }, s.2 ++ s.1.freeList)

/-- **The growth loop in closed form.** -/
theorem growTable_eq (hfill : fill ≤ blockSize) (numNew : ℕ) (s : BlockPool R × List ℕ) :
    growTable fill numNew s = growOutcome fill numNew s := by
  fun_induction growTable fill numNew s with
  | case1 fill pool table => simp [growOutcome, extraBlocks_zero, fillAfter]
  | case2 fill numNew pool table hrem hfull e pool' halloc =>
    obtain rfl : fill = blockSize := by omega
    cases hlist : pool.freeList with
    | nil =>
      rw [BlockPool.allocBlock_nil hlist] at halloc
      cases halloc
      have hsame : pool = { pool with freeList := [] } := by rw [← hlist]
      simp [growOutcome, hlist, extraBlocks_full hrem, ← hsame]
    | cons b rest =>
      rw [BlockPool.allocBlock_cons hlist] at halloc
      cases halloc
  | case3 fill numNew pool table hrem hfull newBlock pool' halloc ih =>
    obtain rfl : fill = blockSize := by omega
    cases hlist : pool.freeList with
    | nil =>
      rw [BlockPool.allocBlock_nil hlist] at halloc
      cases halloc
    | cons b rest =>
      rw [BlockPool.allocBlock_cons hlist] at halloc
      cases halloc
      rw [ih (Nat.zero_le _)]
      simp [growOutcome, hlist, extraBlocks_full hrem, fillAfter_full hrem, BlockPool.bytesPerBlock]
  | case4 fill numNew pool table hrem hroom toWrite ih =>
    have hlt : fill < blockSize := by omega
    rw [ih (by omega)]
    simp only [growOutcome, toWrite, extraBlocks_write hlt, fillAfter_write hrem hlt]

/-! ## The append -/

/-- The sequence after a growth that took the blocks `new` for `numNew` tokens. -/
def SequenceBlocks.grow (seq : SequenceBlocks) (new : List ℕ) (numNew : ℕ) : SequenceBlocks where
  blockTable := seq.blockTable ++ new
  lastBlockFill := fillAfter seq.lastBlockFill numNew
  currentLen := seq.currentLen + numNew

namespace PagedKvCacheManager

/-- The blocks of the live sequences. -/
def blocksInUse (c : PagedKvCacheManager R) : List ℕ :=
  Assoc.collect SequenceBlocks.blockTable c.sequences

/-- The cache after an append that ran out of blocks: the whole free
stack has moved into the table. -/
def drained (c : PagedKvCacheManager R) (handle : CacheHandle) (seq : SequenceBlocks) :
    PagedKvCacheManager R :=
  { c with
    pool := { c.pool with freeList := [] }
    sequences := c.sequences.insert handle
      { seq with blockTable := seq.blockTable ++ c.pool.freeList } }

/-- The cache after the layer-0 part of an append that found its blocks. -/
def grown (c : PagedKvCacheManager R) (handle : CacheHandle) (seq : SequenceBlocks) (numNew : ℕ) :
    PagedKvCacheManager R :=
  let n := extraBlocks seq.lastBlockFill numNew
  { c with
    pool := { c.pool with freeList := c.pool.freeList.drop n }
    sequences := c.sequences.insert handle (seq.grow (c.pool.freeList.take n) numNew) }

/-- The ways an append can leave the cache. -/
inductive Appended (handle : CacheHandle) (layer numNew : ℕ) (c : PagedKvCacheManager R) :
    PagedKvCacheManager R → Prop
  /-- The handle is not live. -/
  | invalid : c.sequences.lookup handle = none → Appended handle layer numNew c c
  /-- Another layer than 0: only rows are written. -/
  | written {seq : SequenceBlocks} {pool : BlockPool R} :
      c.sequences.lookup handle = some seq → layer ≠ 0 →
      WritesOnly seq.blockTable layer c.pool pool →
      Appended handle layer numNew c { c with pool }
  /-- Layer 0, and not enough blocks. -/
  | exhausted {seq : SequenceBlocks} :
      c.sequences.lookup handle = some seq → layer = 0 →
      c.pool.freeList.length < extraBlocks seq.lastBlockFill numNew →
      Appended handle layer numNew c (c.drained handle seq)
  /-- Layer 0, with enough blocks: the table grows, then rows are written. -/
  | grown {seq : SequenceBlocks} {pool : BlockPool R} :
      c.sequences.lookup handle = some seq → layer = 0 →
      extraBlocks seq.lastBlockFill numNew ≤ c.pool.freeList.length →
      WritesOnly (seq.blockTable ++ c.pool.freeList.take (extraBlocks seq.lastBlockFill numNew)) 0
        (c.grown handle seq numNew).pool pool →
      Appended handle layer numNew c { c.grown handle seq numNew with pool }

/-- Writing rows of the pool, as a step of the cache. -/
theorem state_onPool {α : Type} (x : EStateM Fault (BlockPool R) α) (c : PagedKvCacheManager R) :
    state (onPool x c) = { c with pool := state (x c.pool) } := by
  unfold onPool
  cases x c.pool <;> rfl

/-- However the write part ends, it touches the sequence's blocks on its layer only. -/
theorem state_writeNew (b : Backend R W F) (layer : ℕ) (keys values : List R)
    (seq : SequenceBlocks) (c : PagedKvCacheManager R) :
    ∃ pool, state (writeNew b layer keys values seq c) = { c with pool } ∧
      WritesOnly seq.blockTable layer c.pool pool := by
  unfold writeNew
  cases hsub : checkedSub seq.currentLen keys.length with
  | ok startToken =>
    rw [lift_bind_of_ok rfl, state_onPool]
    exact ⟨_, rfl, writeRows_within b layer startToken _ keys values _ 0 _⟩
  | error e =>
    -- the subtraction panicked before anything was written
    rw [lift_bind_of_error rfl]
    exact ⟨c.pool, rfl, refl_of _ _⟩

section Lookup

variable {c : PagedKvCacheManager R} {handle : CacheHandle} {seq : SequenceBlocks}

theorem appendKv_of_notLive (hseq : c.sequences.lookup handle = none) (b : Backend R W F)
    (layer : ℕ) (keys values : List R) :
    appendKv b handle layer keys values c = .error (invalidHandle handle) c := by
  unfold appendKv
  rw [get_bind, hseq]
  rfl

section

variable (hfill : seq.lastBlockFill ≤ blockSize) (hseq : c.sequences.lookup handle = some seq)
  (b : Backend R W F) {keys : List R} (values : List R)
include hfill hseq

/-- On layer 0 an append that finds its blocks grows the table first. -/
theorem appendKv_grown
    (henough : extraBlocks seq.lastBlockFill keys.length ≤ c.pool.freeList.length) :
    appendKv b handle 0 keys values c = writeNew b 0 keys values
      (seq.grow (c.pool.freeList.take (extraBlocks seq.lastBlockFill keys.length)) keys.length)
      (c.grown handle seq keys.length) := by
  unfold appendKv
  rw [get_bind, hseq]
  refine bind_of_ok ?_ _
  simp only [reserve, growTable_eq hfill, growOutcome, if_pos henough]
  rfl

/-- One that does not find them has taken all there are. -/
theorem appendKv_drained
    (hshort : c.pool.freeList.length < extraBlocks seq.lastBlockFill keys.length) :
    appendKv b handle 0 keys values c =
      .error (.error (.outOfMemory c.pool.bytesPerBlock 0)) (c.drained handle seq) := by
  unfold appendKv
  rw [get_bind, hseq]
  refine bind_of_error ?_ _
  simp only [reserve, growTable_eq hfill, growOutcome, if_neg (Nat.not_le.2 hshort)]
  rfl

end

theorem appendKv_of_ne_zero (hseq : c.sequences.lookup handle = some seq) (b : Backend R W F)
    {layer : ℕ} (hl : layer ≠ 0) (keys values : List R) :
    appendKv b handle layer keys values c = writeNew b layer keys values seq c := by
  unfold appendKv
  rw [get_bind, hseq]
  simp only [if_neg hl]
  rfl

end Lookup

/-- **An append ends in one of four ways**, whatever the backend does. -/
theorem appended {c : PagedKvCacheManager R} (b : Backend R W F) (handle : CacheHandle)
    (layer : ℕ) (keys values : List R)
    (hfill : ∀ seq, c.sequences.lookup handle = some seq → seq.lastBlockFill ≤ blockSize) :
    Appended handle layer keys.length c (state (appendKv b handle layer keys values c)) := by
  cases hseq : c.sequences.lookup handle with
  | none =>
    rw [appendKv_of_notLive hseq]
    exact .invalid hseq
  | some seq =>
    by_cases hl : layer = 0
    · subst hl
      rcases Nat.lt_or_ge c.pool.freeList.length (extraBlocks seq.lastBlockFill keys.length) with
        hshort | henough
      · rw [appendKv_drained (hfill seq hseq) hseq b values hshort]
        exact .exhausted hseq rfl hshort
      · obtain ⟨pool, hstate, hwrites⟩ := state_writeNew b 0 keys values (seq.grow _ _)
          (c.grown handle seq keys.length)
        rw [appendKv_grown (hfill seq hseq) hseq b values henough, hstate]
        exact .grown hseq rfl henough hwrites
    · rw [appendKv_of_ne_zero hseq b hl]
      obtain ⟨pool, hstate, hwrites⟩ := state_writeNew b layer keys values seq c
      rw [hstate]
      exact .written hseq hl hwrites

end PagedKvCacheManager

end Fracture
