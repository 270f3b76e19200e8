import Mathlib.Algebra.Field.Defs
import Mathlib.Order.Defs.LinearOrder
import Fracture.Common.ThreadBlock
import Fracture.TurboQuant.Model

/-!
# The attention kernels

Three kernels read a layer's cached keys and values. The fused kernel reads
quantized blocks and never unpacks a row: it rotates the query once, takes
scores against the centroids, accumulates the values in their rotated space
and rotates the sum back once. The decompression kernel restores the rows
of a block, and the paged kernel attends over restored rows.

The arithmetic is that of a field, with the exponential, the scale and the
float bound left open: no rounding, and conversions between half and float
change nothing. The arrays a kernel keeps in shared memory are separate
here, since no index leaves its array.
-/

namespace Fracture.TurboQuant

open ThreadBlock

/-- Every kernel of this file is launched with blocks of 128 threads, which
are four warps of 32. -/
abbrev kernelThreads : ℕ := 4 * 2 ^ 5

/-- The tokens of a cache block. -/
def attnBlockSize : ℕ := 16

/-- How query heads share key and value heads: in groups of one size.
`ModelConfig::validate` refuses a model whose heads have no such groups. -/
structure HeadGrouping where
  numQHeads : ℕ
  numKvHeads : ℕ
  pos : 0 < numKvHeads
  divides : numKvHeads ∣ numQHeads

namespace HeadGrouping

def groupSize (h : HeadGrouping) : ℕ := h.numQHeads / h.numKvHeads

def kvHead (h : HeadGrouping) (qHead : ℕ) : ℕ := qHead / h.groupSize

/-- A query head's group has a key and value head. -/
theorem kvHead_lt (h : HeadGrouping) {qHead : ℕ} (hq : qHead < h.numQHeads) :
    h.kvHead qHead < h.numKvHeads := by
  have hall : h.numKvHeads * h.groupSize = h.numQHeads := Nat.mul_div_cancel' h.divides
  exact Nat.div_lt_of_lt_mul (by rw [Nat.mul_comm, hall]; exact hq)

end HeadGrouping

/-- The numbers an attention launch is given. -/
structure AttentionShape where
  heads : HeadGrouping
  numTokens : ℕ
  headDim : ℕ
  /-- Tokens in the cache. -/
  kvLen : ℕ
  /-- Tokens before this batch. -/
  startPos : ℕ

namespace AttentionShape

/-- The positions a token attends to. -/
def causalLen (s : AttentionShape) (tokenIdx : ℕ) : ℕ :=
  let causalLen := s.startPos + tokenIdx + 1
  if s.kvLen < causalLen then s.kvLen else causalLen

/-- Where the vector of a token's query head starts, in the queries and in
the output. -/
def queryBase (s : AttentionShape) (tokenIdx qHead : ℕ) : ℕ :=
  (tokenIdx * s.heads.numQHeads + qHead) * s.headDim

/-- The row of a position's head in its block. -/
def blockRow (s : AttentionShape) (kvHead kvPos : ℕ) : ℕ :=
  kvPos % attnBlockSize * s.heads.numKvHeads + kvHead

end AttentionShape

/-- The block a position's row is in. -/
def physicalBlock (blockTable : ℕ → ℕ) (kvPos : ℕ) : ℕ := blockTable (kvPos / attnBlockSize)

/-! ## Arithmetic -/

/-- What the kernels take from the device's arithmetic. -/
structure Arith (K : Type) where
  exp : K → K
  /-- `rsqrtf(head_dim)`. -/
  scale : K
  fltMax : K

section Kernels

variable {K : Type} [Field K] [LinearOrder K]

/-- `acc += term(i)` for each `i` below `n`. -/
def accumulate (n : ℕ) (term : ℕ → K) : K :=
  (List.range n).foldl (fun acc i => acc + term i) 0

/-- The scores both attention kernels keep, from `score` at each position
the token attends to: stored, reduced to their maximum, exponentiated,
reduced to their sum and divided by it. A thread's register is kept apart
from the cells its loop writes. -/
def softmaxScores (a : Arith K) (schedule : Schedule kernelThreads) (causalLen : ℕ)
    (score : ℕ → K) (scores : ℕ → K) : ℕ → K :=
  -- Phase 1: attention scores, and each thread's largest
  let stored := schedule.phase causalLen
    (fun kvPos scores => Function.update scores kvPos (score kvPos)) scores
  let maxScore := fun tid => (strided kernelThreads causalLen tid).foldl
    (fun maxScore kvPos => if maxScore < score kvPos then score kvPos else maxScore) (-a.fltMax)
  let globalMax := blockReduce max (-a.fltMax) 5 4 maxScore
  -- Phase 2: exp and sum
  let vals := schedule.phase causalLen
    (fun kvPos scores => Function.update scores kvPos (a.exp (scores kvPos - globalMax))) stored
  let localSum := fun tid => (strided kernelThreads causalLen tid).foldl
    (fun localSum kvPos => localSum + a.exp (stored kvPos - globalMax)) 0
  let globalSum := blockReduce (· + ·) 0 5 4 localSum
  -- normalize
  let invSum := 1 / globalSum
  schedule.phase causalLen
    (fun kvPos scores => Function.update scores kvPos (scores kvPos * invSum)) vals

/-! ## Paged attention -/

/-- A block of `paged_attention_kernel`: one query head of one token. -/
def pagedAttentionBlock (a : Arith K) (s : AttentionShape) (schedule : Schedule kernelThreads)
    (shared : ℕ → K) (q : ℕ → K) (blockTable : ℕ → ℕ) (kBlocks vBlocks : ℕ → ℕ → K)
    (tokenIdx qHead : ℕ) (output : ℕ → K) : ℕ → K :=
  if s.numTokens ≤ tokenIdx ∨ s.heads.numQHeads ≤ qHead then output
  else
    let kvHead := s.heads.kvHead qHead
    let causalLen := s.causalLen tokenIdx
    let qVec := fun d => q (s.queryBase tokenIdx qHead + d)
    let score := fun kvPos =>
      let kVec := fun d =>
        kBlocks (physicalBlock blockTable kvPos) (s.blockRow kvHead kvPos * s.headDim + d)
      accumulate s.headDim (fun d => qVec d * kVec d) * a.scale
    let scores := softmaxScores a schedule causalLen score shared
    -- weighted sum of the value vectors
    schedule.phase s.headDim
      (fun d output => Function.update output (s.queryBase tokenIdx qHead + d)
        (accumulate causalLen fun kvPos =>
          scores kvPos *
            vBlocks (physicalBlock blockTable kvPos) (s.blockRow kvHead kvPos * s.headDim + d)))
      output

/-- `launch_paged_attention`. -/
def pagedAttention (a : Arith K) (s : AttentionShape)
    (e : Execution K kernelThreads s.numTokens s.heads.numQHeads) (q : ℕ → K)
    (blockTable : ℕ → ℕ) (kBlocks vBlocks : ℕ → ℕ → K) (output : ℕ → K) : ℕ → K :=
  e.grid (fun tokenIdx qHead => pagedAttentionBlock a s (e.schedule tokenIdx qHead)
    (e.shared tokenIdx qHead) q blockTable kBlocks vBlocks tokenIdx qHead) output

/-! ## Quantized rows -/

/-- One index of a packed row. -/
def unpackIndex (packed : ℕ → UInt8) (coord bits : ℕ) : ℕ :=
  if bits = 4 then
    if coord % 2 = 0 then (packed (coord / 2)).toNat >>> 4 &&& 0x0F
    else (packed (coord / 2)).toNat &&& 0x0F
  else if bits = 2 then (packed (coord / 4)).toNat >>> (6 - coord % 4 * 2) &&& 0x03
  else (packed coord).toNat

/-- What a kernel is given of a layer's quantized keys or values. Block `b`
has the packed rows `packed b` and the norms `norms b`. -/
structure Quantized (K : Type) where
  packed : ℕ → ℕ → UInt8
  norms : ℕ → ℕ → K
  /-- The rotation matrix, row by row. -/
  rotation : ℕ → K
  centroids : ℕ → K
  bits : ℕ
  packedDimPerHead : ℕ

/-- The packed bytes of a row of a block. -/
def Quantized.packedHead (x : Quantized K) (block row : ℕ) : ℕ → UInt8 := fun i =>
  x.packed block (row * x.packedDimPerHead + i)

/-! ## Decompression -/

/-- The centroids of a packed row, unpacked byte by byte. -/
def unpackRow (schedule : Schedule kernelThreads) (inBase : ℕ → UInt8) (centroids : ℕ → K)
    (headDim bits : ℕ) (yHat : ℕ → K) : ℕ → K :=
  if bits = 4 then
    schedule.phase ((headDim + 1) / 2)
      (fun pair yHat =>
        let packed := (inBase pair).toNat
        let d0 := pair * 2
        let d1 := d0 + 1
        let yHat := Function.update yHat d0 (centroids (packed >>> 4 &&& 0x0F))
        if d1 < headDim then Function.update yHat d1 (centroids (packed &&& 0x0F)) else yHat)
      yHat
  else if bits = 2 then
    schedule.phase ((headDim + 3) / 4)
      (fun quad yHat =>
        let packed := (inBase quad).toNat
        (List.range 4).foldl
          (fun yHat sub =>
            let d := quad * 4 + sub
            if d < headDim then
              Function.update yHat d (centroids (packed >>> (6 - sub * 2) &&& 0x03))
            else yHat)
          yHat)
      yHat
  else if bits = 8 then
    schedule.phase headDim
      (fun d yHat => Function.update yHat d (centroids (inBase d).toNat)) yHat
  else yHat

/-- A block of `turboquant_decompress_kernel`: one head of one token. -/
def turboquantDecompressBlock (schedule : Schedule kernelThreads) (shared : ℕ → K)
    (packedIn : ℕ → UInt8) (normsIn rotation centroids : ℕ → K)
    (numKvHeads headDim bits packedDimPerHead token head : ℕ) (output : ℕ → K) : ℕ → K :=
  let inBase := fun i => packedIn ((token * numKvHeads + head) * packedDimPerHead + i)
  -- Step 1: unpack indices and look up centroids
  let yHat := unpackRow schedule inBase centroids headDim bits shared
  -- Step 2: unrotate
  let xHat := schedule.phase headDim
    (fun i xHat => Function.update xHat i
      (accumulate headDim fun j => rotation (j * headDim + i) * yHat j))
    (fun i => shared (headDim + i))
  -- Step 3: rescale by the stored norm
  let norm := normsIn (token * numKvHeads + head)
  schedule.phase headDim
    (fun d output => Function.update output ((token * numKvHeads + head) * headDim + d)
      (xHat d * norm))
    output

/-- `launch_turboquant_decompress`. -/
def turboquantDecompress {numTokens numKvHeads : ℕ}
    (e : Execution K kernelThreads numTokens numKvHeads) (packedIn : ℕ → UInt8)
    (normsIn rotation centroids : ℕ → K) (headDim bits packedDimPerHead : ℕ) (output : ℕ → K) :
    ℕ → K :=
  e.grid (fun token head => turboquantDecompressBlock (e.schedule token head)
    (e.shared token head) packedIn normsIn rotation centroids numKvHeads headDim bits
    packedDimPerHead token head) output

/-- Every block decompressed, each into a block of its own. -/
def Quantized.decompressed (x : Quantized K) (numKvHeads headDim : ℕ)
    (e : ℕ → Execution K kernelThreads attnBlockSize numKvHeads) (blocks : ℕ → ℕ → K) :
    ℕ → ℕ → K := fun b =>
  turboquantDecompress (e b) (x.packed b) (x.norms b) x.rotation x.centroids headDim x.bits
    x.packedDimPerHead (blocks b)

/-! ## Fused attention -/

/-- A block of `attention_paged_tq_kernel`: one query head of one token. -/
def attentionPagedTqBlock (a : Arith K) (s : AttentionShape) (schedule : Schedule kernelThreads)
    (shared : ℕ → K) (q : ℕ → K) (blockTable : ℕ → ℕ) (k v : Quantized K)
    (tokenIdx qHead : ℕ) (output : ℕ → K) : ℕ → K :=
  if s.numTokens ≤ tokenIdx ∨ s.heads.numQHeads ≤ qHead then output
  else
    let kvHead := s.heads.kvHead qHead
    let causalLen := s.causalLen tokenIdx
    let qVec := fun j => q (s.queryBase tokenIdx qHead + j)
    -- Step 0: rotate the query with the keys' rotation
    let qRot := schedule.phase s.headDim
      (fun i qRot => Function.update qRot i
        (accumulate s.headDim fun j => k.rotation (i * s.headDim + j) * qVec j))
      (fun i => shared (s.kvLen + i))
    let score := fun kvPos =>
      let physicalBlock := physicalBlock blockTable kvPos
      let row := s.blockRow kvHead kvPos
      let kNorm := k.norms physicalBlock row
      accumulate s.headDim (fun d =>
        qRot d * k.centroids (unpackIndex (k.packedHead physicalBlock row) d k.bits)) *
        (kNorm * a.scale)
    let scores := softmaxScores a schedule causalLen score shared
    -- Phase 3: weighted value sum in rotated space
    let zeroed := schedule.phase s.headDim (fun d accRot => Function.update accRot d 0)
      (fun d => shared (s.kvLen + s.headDim + d))
    let accRot := schedule.phase s.headDim
      (fun d accRot => Function.update accRot d
        (accumulate causalLen fun kvPos =>
          let physicalBlock := physicalBlock blockTable kvPos
          let row := s.blockRow kvHead kvPos
          let vNorm := v.norms physicalBlock row
          scores kvPos *
            v.centroids (unpackIndex (v.packedHead physicalBlock row) d v.bits) * vNorm))
      zeroed
    -- Step 4: unrotate
    schedule.phase s.headDim
      (fun i output => Function.update output (s.queryBase tokenIdx qHead + i)
        (accumulate s.headDim fun j => v.rotation (j * s.headDim + i) * accRot j))
      output

/-- `launch_attention_paged_tq`. -/
def attentionPagedTq (a : Arith K) (s : AttentionShape)
    (e : Execution K kernelThreads s.numTokens s.heads.numQHeads) (q : ℕ → K)
    (blockTable : ℕ → ℕ) (k v : Quantized K) (output : ℕ → K) : ℕ → K :=
  e.grid (fun tokenIdx qHead => attentionPagedTqBlock a s (e.schedule tokenIdx qHead)
    (e.shared tokenIdx qHead) q blockTable k v tokenIdx qHead) output

end Kernels

end Fracture.TurboQuant
