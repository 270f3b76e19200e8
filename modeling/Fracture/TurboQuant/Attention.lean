import Mathlib.Algebra.BigOperators.Group.Finset.Sigma
import Mathlib.Algebra.BigOperators.Ring.Finset
import Mathlib.Algebra.Field.Rat
import Mathlib.Algebra.Order.Ring.Unbundled.Rat
import Fracture.TurboQuant.Kernels

/-!
# Attending over quantized rows

Attention weighs the values of the positions by the softmax of their scores,
which both attention kernels take in the same way. It is linear in the
values: that is why the fused kernel may sum values in their rotated space
and rotate the sum back, and it may rotate the query in the place of every
key. So it writes what the paged kernel writes over the decompressed
blocks.
-/

namespace Fracture.TurboQuant

open ThreadBlock Finset

variable {K : Type}

theorem kernelThreads_pos : 0 < kernelThreads := by decide

/-! ## Unpacking -/

/-- With four bits a byte is two coordinates, the first in its high half. -/
theorem writes_pairs (inBase : ℕ → UInt8) (centroids : ℕ → K) (headDim : ℕ) :
    Writes (· < (headDim + 1) / 2)
      (fun pair (yHat : ℕ → K) =>
        if pair * 2 + 1 < headDim then
          Function.update
            (Function.update yHat (pair * 2) (centroids ((inBase pair).toNat >>> 4 &&& 0x0F)))
            (pair * 2 + 1) (centroids ((inBase pair).toNat &&& 0x0F))
        else Function.update yHat (pair * 2) (centroids ((inBase pair).toNat >>> 4 &&& 0x0F)))
      (fun pair d => d / 2 = pair ∧ d < headDim)
      (fun _ d _ => centroids (unpackIndex inBase d 4)) where
  hit := by
    rintro pair - yHat d ⟨rfl, hd⟩
    rcases Nat.mod_two_eq_zero_or_one d with heven | hodd
    · have haddr : d / 2 * 2 = d := by omega
      have hindex : unpackIndex inBase d 4 = (inBase (d / 2)).toNat >>> 4 &&& 0x0F := by
        rw [unpackIndex, if_pos rfl, if_pos heven]
      rw [haddr, hindex]
      split
      · rw [Function.update_of_ne (by omega), Function.update_self]
      · rw [Function.update_self]
    · have haddr : d / 2 * 2 + 1 = d := by omega
      have hindex : unpackIndex inBase d 4 = (inBase (d / 2)).toNat &&& 0x0F := by
        rw [unpackIndex, if_pos rfl, if_neg (by omega)]
      rw [haddr, if_pos hd, Function.update_self, hindex]
  miss := by
    intro pair hpair yHat d hd
    have hfirst : d ≠ pair * 2 := by omega
    split
    · rw [Function.update_of_ne (by omega), Function.update_of_ne hfirst]
    · rw [Function.update_of_ne hfirst]
  apart := by
    rintro pair - pair' - d ⟨rfl, -⟩ ⟨rfl, -⟩
    rfl

/-- The coordinates of one byte are set one by one, those of the row only. -/
theorem writes_quad (vals : ℕ → K) (quad headDim : ℕ) :
    Writes (· < 4)
      (fun sub (yHat : ℕ → K) =>
        if quad * 4 + sub < headDim then Function.update yHat (quad * 4 + sub) (vals sub) else yHat)
      (fun sub d => d = quad * 4 + sub ∧ d < headDim) (fun sub _ _ => vals sub) where
  hit := by
    rintro sub - yHat d ⟨rfl, hd⟩
    rw [if_pos hd, Function.update_self]
  miss := by
    intro sub _ yHat d hd
    split
    · rw [Function.update_of_ne (by omega)]
    · rfl
  apart := by
    rintro sub - sub' - d ⟨rfl, -⟩ ⟨h, -⟩
    omega

/-- With two bits a byte is four coordinates, the first in its highest bits. -/
theorem writes_quads (inBase : ℕ → UInt8) (centroids : ℕ → K) (headDim : ℕ) :
    Writes (· < (headDim + 3) / 4)
      (fun quad (yHat : ℕ → K) =>
        (List.range 4).foldl
          (fun yHat sub =>
            if quad * 4 + sub < headDim then
              Function.update yHat (quad * 4 + sub)
                (centroids ((inBase quad).toNat >>> (6 - sub * 2) &&& 0x03))
            else yHat)
          yHat)
      (fun quad d => d / 4 = quad ∧ d < headDim)
      (fun _ d _ => centroids (unpackIndex inBase d 2)) where
  hit := by
    rintro quad - yHat d ⟨rfl, hd⟩
    have hturn : d % 4 < 4 := Nat.mod_lt d (by decide)
    have haddr : d / 4 * 4 + d % 4 = d := Nat.div_add_mod' d 4
    have hwritten := (writes_quad (fun sub =>
      centroids ((inBase (d / 4)).toNat >>> (6 - sub * 2) &&& 0x03)) (d / 4) headDim).foldl_of_touched
      (fun sub hsub => List.mem_range.1 hsub) List.nodup_range (List.mem_range.2 hturn)
      ⟨haddr.symm, hd⟩ yHat
    rw [unpackIndex, if_neg (by decide), if_pos rfl]
    exact hwritten
  miss := by
    intro quad _ yHat d hd
    refine (writes_quad (fun sub =>
      centroids ((inBase quad).toNat >>> (6 - sub * 2) &&& 0x03)) quad headDim).foldl_of_untouched
      (fun sub hsub => List.mem_range.1 hsub) ?_ yHat
    rintro sub hsub ⟨hsubd, hlt⟩
    have hsub4 := List.mem_range.1 hsub
    exact hd ⟨by omega, hlt⟩
  apart := by
    rintro quad - quad' - d ⟨rfl, -⟩ ⟨rfl, -⟩
    rfl

/-- **Unpacking a row** byte by byte looks up the centroid of each index. -/
theorem unpackRow_of_lt (schedule : Schedule kernelThreads) (inBase : ℕ → UInt8)
    (centroids : ℕ → K) {headDim bits d : ℕ} (hbits : bits ∈ TurboQuantConfig.validBits)
    (hd : d < headDim) (yHat : ℕ → K) :
    unpackRow schedule inBase centroids headDim bits yHat d =
      centroids (unpackIndex inBase d bits) := by
  simp only [TurboQuantConfig.validBits, List.mem_cons, List.not_mem_nil, or_false] at hbits
  rcases hbits with rfl | rfl | rfl
  · exact schedule.phase_of_touched kernelThreads_pos (writes_quads inBase centroids headDim)
      (i := d / 4) (by omega) ⟨rfl, hd⟩ yHat
  · exact schedule.phase_of_touched kernelThreads_pos (writes_pairs inBase centroids headDim)
      (i := d / 2) (by omega) ⟨rfl, hd⟩ yHat
  · exact schedule.phase_set kernelThreads_pos hd (fun d => centroids (inBase d).toNat) yHat

variable [Field K]

/-! ## Sums -/

section

variable (schedule : Schedule kernelThreads) (x : Quantized K) (n : ℕ) (term : ℕ → K)

/-- **Rotating the query is rotating the key back.** -/
theorem sum_rotated_mul (m : ℕ) (rotation : ℕ → ℕ → K) (q y : ℕ → K) :
    ∑ d ∈ range m, (∑ j ∈ range m, rotation d j * q j) * y d =
      ∑ j ∈ range m, q j * ∑ d ∈ range m, rotation d j * y d := by
  simp only [mul_sum, sum_mul]
  rw [sum_comm]
  refine sum_congr rfl fun j _ => sum_congr rfl fun d _ => ?_
  ring

theorem accumulate_eq_sum :
    accumulate n term = ∑ i ∈ range n, term i := by
  induction n with
  | zero => rfl
  | succ n ih =>
    rw [sum_range_succ, ← ih, accumulate, List.range_succ, List.foldl_append]
    rfl

/-! ## Decompression -/

/-- A row of a block as it was before it was quantized, up to the error of
the quantization. -/
def Quantized.restored (headDim block row d : ℕ) : K :=
  (∑ j ∈ range headDim, x.rotation (j * headDim + d) *
    x.centroids (unpackIndex (x.packedHead block row) j x.bits)) * x.norms block row

/-- **A score taken against the rotated query** is the score of the restored
key: the query is rotated once, in the place of every key. -/
theorem rotated_score (headDim block row : ℕ) (q mem : ℕ → K) (scale : K) :
    accumulate headDim (fun d =>
        schedule.phase headDim (fun i mem => Function.update mem i
          (accumulate headDim fun j => x.rotation (i * headDim + j) * q j)) mem d *
          x.centroids (unpackIndex (x.packedHead block row) d x.bits)) *
        (x.norms block row * scale) =
      (∑ d ∈ range headDim, q d * x.restored headDim block row d) * scale := by
  calc _ = (∑ d ∈ range headDim, (∑ j ∈ range headDim, x.rotation (d * headDim + j) * q j) *
          x.centroids (unpackIndex (x.packedHead block row) d x.bits)) *
            (x.norms block row * scale) := by
        rw [accumulate_eq_sum]
        refine congrArg (· * _) (sum_congr rfl fun d hd => ?_)
        rw [schedule.phase_set kernelThreads_pos (mem_range.1 hd), accumulate_eq_sum]
    _ = _ := by
        rw [sum_rotated_mul headDim fun d j => x.rotation (d * headDim + j), ← mul_assoc, sum_mul]
        refine congrArg (· * scale) (sum_congr rfl fun d _ => ?_)
        rw [Quantized.restored, mul_assoc]

/-- What a block of the decompression kernel writes. -/
theorem turboquantDecompressBlock_writes (shared : ℕ → K) (x : Quantized K)
    (hbits : x.bits ∈ TurboQuantConfig.validBits) (numKvHeads headDim block token head : ℕ) :
    WritesVector
      (turboquantDecompressBlock schedule shared (x.packed block) (x.norms block) x.rotation
        x.centroids numKvHeads headDim x.bits x.packedDimPerHead token head)
      ((token * numKvHeads + head) * headDim) headDim
      (x.restored headDim block (token * numKvHeads + head)) := by
  refine WritesVector.congr (schedule.phase_writesVector kernelThreads_pos _ headDim _) ?_
  intro d hd
  rw [schedule.phase_set kernelThreads_pos hd, accumulate_eq_sum, Quantized.restored]
  congr 1
  refine sum_congr rfl fun j hj => ?_
  rw [unpackRow_of_lt schedule _ _ hbits (mem_range.1 hj)]
  rfl

/-- **The decompressed blocks hold the restored rows.** -/
theorem decompressed_eq_restored (hbits : x.bits ∈ TurboQuantConfig.validBits)
    {numKvHeads headDim offset head d : ℕ}
    (e : ℕ → Execution K kernelThreads attnBlockSize numKvHeads) (blocks : ℕ → ℕ → K) (b : ℕ)
    (hoffset : offset < attnBlockSize) (hhead : head < numKvHeads) (hd : d < headDim) :
    x.decompressed numKvHeads headDim e blocks b ((offset * numKvHeads + head) * headDim + d) =
      x.restored headDim b (offset * numKvHeads + head) d := by
  have hwrites : ∀ token < attnBlockSize, ∀ head < numKvHeads, WritesVector
      (turboquantDecompressBlock ((e b).schedule token head) ((e b).shared token head) (x.packed b)
        (x.norms b) x.rotation x.centroids numKvHeads headDim x.bits x.packedDimPerHead token head)
      ((token * numKvHeads + head) * headDim) headDim
      (x.restored headDim b (token * numKvHeads + head)) :=
    fun token _ head _ =>
      turboquantDecompressBlock_writes _ _ x hbits numKvHeads headDim b token head
  exact (e b).grid_inside hwrites hoffset hhead hd (blocks b)

end

variable [LinearOrder K]

/-! ## Attention -/

/-- The largest of the first `n` scores, as a block finds it. -/
def blockMax (a : Arith K) (n : ℕ) (score : ℕ → K) : K :=
  blockReduce max (-a.fltMax) 5 4 fun tid => (strided kernelThreads n tid).foldl
    (fun maxScore i => if maxScore < score i then score i else maxScore) (-a.fltMax)

/-- The sum of their exponentials, as a block takes it. -/
def blockSum (a : Arith K) (n : ℕ) (score : ℕ → K) : K :=
  blockReduce (· + ·) 0 5 4 fun tid => (strided kernelThreads n tid).foldl
    (fun localSum i => localSum + a.exp (score i - blockMax a n score)) 0

/-- The softmax of the first `n` scores. -/
def blockWeight (a : Arith K) (n : ℕ) (score : ℕ → K) (i : ℕ) : K :=
  a.exp (score i - blockMax a n score) * (1 / blockSum a n score)

/-- One coordinate of the attention over `n` positions. -/
def attend (a : Arith K) (n : ℕ) (score value : ℕ → K) : K :=
  ∑ i ∈ range n, blockWeight a n score i * value i

variable {n : ℕ}

section

variable (a : Arith K) (schedule : Schedule kernelThreads)

/-- **Attention is linear in the values**: what is rotated back afterwards
may as well be rotated back at each position. -/
theorem sum_mul_attend (n m : ℕ) (score : ℕ → K) (c : ℕ → K) (value : ℕ → ℕ → K) :
    ∑ j ∈ range m, c j * attend a n score (fun i => value i j) =
      attend a n score fun i => ∑ j ∈ range m, c j * value i j := by
  simp only [attend, mul_sum]
  rw [sum_comm]
  refine sum_congr rfl fun i _ => sum_congr rfl fun j _ => ?_
  ring

/-! ## Softmax -/

/-- **The scores a block ends with** depend on the scores alone, whatever the
order of the threads and the contents of the shared memory. -/
theorem softmaxScores_of_lt {i : ℕ} (hi : i < n) (score scores : ℕ → K) : softmaxScores a schedule n
    score scores i = blockWeight a n score i := by
  -- the phases, cell by cell
  have hstored : ∀ j < n, schedule.phase n
      (fun kvPos scores => Function.update scores kvPos (score kvPos)) scores j = score j :=
    fun j hj => schedule.phase_set kernelThreads_pos hj score scores
  have hsum : (fun tid => (strided kernelThreads n tid).foldl (fun localSum kvPos => localSum +
      a.exp (schedule.phase n (fun kvPos scores => Function.update scores kvPos (score kvPos)) scores
        kvPos - blockMax a n score)) 0) = fun tid => (strided kernelThreads n tid).foldl
      (fun localSum i => localSum + a.exp (score i - blockMax a n score)) 0 :=
    funext fun tid => foldl_strided_congr kernelThreads_pos (fun acc j hj => by rw [hstored j hj]) 0
  unfold softmaxScores
  rw [schedule.phase_update kernelThreads_pos hi (fun _ old => old * _),
    schedule.phase_update kernelThreads_pos hi (fun _ old => a.exp (old - _)), hstored i hi]
  rw [blockWeight, blockSum, ← hsum]
  rfl

/-- **Values accumulated in rotated space** and rotated back once attend
over the restored rows. -/
theorem unrotated_attend (x : Quantized K) (headDim n : ℕ) (block row : ℕ → ℕ)
    (score scores mem : ℕ → K) (i : ℕ) :
    accumulate headDim (fun j => x.rotation (j * headDim + i) *
        schedule.phase headDim (fun d mem => Function.update mem d (accumulate n fun kvPos =>
          softmaxScores a schedule n score scores kvPos *
            x.centroids (unpackIndex (x.packedHead (block kvPos) (row kvPos)) d x.bits) *
            x.norms (block kvPos) (row kvPos))) mem j) =
      attend a n score fun kvPos => x.restored headDim (block kvPos) (row kvPos) i := by
  let value : ℕ → ℕ → K := fun kvPos j =>
    x.centroids (unpackIndex (x.packedHead (block kvPos) (row kvPos)) j x.bits) *
      x.norms (block kvPos) (row kvPos)
  calc _ = ∑ j ∈ range headDim, x.rotation (j * headDim + i) *
          attend a n score fun kvPos => value kvPos j := by
        rw [accumulate_eq_sum]
        -- each cell of the accumulator is the attention in rotated space
        refine sum_congr rfl fun j hj => congrArg _ ?_
        rw [schedule.phase_set kernelThreads_pos (mem_range.1 hj), accumulate_eq_sum, attend]
        refine sum_congr rfl fun kvPos hkvPos => ?_
        rw [softmaxScores_of_lt a schedule (mem_range.1 hkvPos), mul_assoc]
    _ = attend a n score fun kvPos =>
          ∑ j ∈ range headDim, x.rotation (j * headDim + i) * value kvPos j :=
        sum_mul_attend a n headDim score _ value
    _ = _ := by
        refine congrArg (attend a n score) (funext fun kvPos => ?_)
        rw [Quantized.restored, sum_mul]
        exact sum_congr rfl fun j _ => (mul_assoc _ _ _).symm

end

/-! ## The kernels -/

section Kernels

variable (a : Arith K) (s : AttentionShape) (q : ℕ → K) (blockTable : ℕ → ℕ)

/-- What a query head of a token attends to over given blocks, at one
coordinate. -/
def attendBlocks (kBlocks vBlocks : ℕ → ℕ → ℕ → K) (tokenIdx qHead d : ℕ) : K :=
  let row := s.blockRow (s.heads.kvHead qHead)
  attend a (s.causalLen tokenIdx)
    (fun kvPos => (∑ d ∈ range s.headDim, q (s.queryBase tokenIdx qHead + d) *
      kBlocks (physicalBlock blockTable kvPos) (row kvPos) d) * a.scale)
    (fun kvPos => vBlocks (physicalBlock blockTable kvPos) (row kvPos) d)

variable {tokenIdx qHead : ℕ}

section

variable (schedule : Schedule kernelThreads) (shared : ℕ → K) (htoken : tokenIdx < s.numTokens)
  (hhead : qHead < s.heads.numQHeads)
include htoken hhead

/-- **The paged kernel attends over its blocks.** -/
theorem pagedAttentionBlock_writes (kBlocks vBlocks : ℕ → ℕ → K) :
    WritesVector
      (pagedAttentionBlock a s schedule shared q blockTable kBlocks vBlocks tokenIdx qHead)
      (s.queryBase tokenIdx qHead) s.headDim
      (attendBlocks a s q blockTable (fun b row d => kBlocks b (row * s.headDim + d))
        (fun b row d => vBlocks b (row * s.headDim + d)) tokenIdx qHead) := by
  have hrun : ¬ (s.numTokens ≤ tokenIdx ∨ s.heads.numQHeads ≤ qHead) := by omega
  unfold pagedAttentionBlock
  simp only [if_neg hrun]
  refine WritesVector.congr (schedule.phase_writesVector kernelThreads_pos _ s.headDim _) ?_
  intro d hd
  rw [accumulate_eq_sum, attendBlocks, attend]
  refine sum_congr rfl fun kvPos hkvPos => ?_
  rw [softmaxScores_of_lt a schedule (mem_range.1 hkvPos)]
  simp only [accumulate_eq_sum]

/-- **The fused kernel attends over the restored rows.** -/
theorem attentionPagedTqBlock_writes (k v : Quantized K) :
    WritesVector (attentionPagedTqBlock a s schedule shared q blockTable k v tokenIdx qHead)
      (s.queryBase tokenIdx qHead) s.headDim
      (attendBlocks a s q blockTable (k.restored s.headDim) (v.restored s.headDim) tokenIdx
        qHead) := by
  have hrun : ¬ (s.numTokens ≤ tokenIdx ∨ s.heads.numQHeads ≤ qHead) := by omega
  unfold attentionPagedTqBlock
  simp only [if_neg hrun]
  refine WritesVector.congr (schedule.phase_writesVector kernelThreads_pos _ s.headDim _) ?_
  intro i hi
  simp only [rotated_score]
  exact unrotated_attend a schedule v s.headDim (s.causalLen tokenIdx) (physicalBlock blockTable)
    (s.blockRow (s.heads.kvHead qHead)) _ shared _ i

end

/-- The paged kernel over decompressed blocks attends over the restored rows
too: the row of every position it reads is one of its block's. -/
theorem attendBlocks_decompressed (k v : Quantized K) (hk : k.bits ∈ TurboQuantConfig.validBits)
    (hv : v.bits ∈ TurboQuantConfig.validBits)
    (kRuns vRuns : ℕ → Execution K kernelThreads attnBlockSize s.heads.numKvHeads)
    (kBlocks vBlocks : ℕ → ℕ → K) {d : ℕ} (hhead : qHead < s.heads.numQHeads) (hd : d < s.headDim) :
    attendBlocks a s q blockTable
        (fun b row d => k.decompressed s.heads.numKvHeads s.headDim kRuns kBlocks b
          (row * s.headDim + d))
        (fun b row d => v.decompressed s.heads.numKvHeads s.headDim vRuns vBlocks b
          (row * s.headDim + d)) tokenIdx qHead d =
      attendBlocks a s q blockTable (k.restored s.headDim) (v.restored s.headDim) tokenIdx qHead
        d := by
  have hkvHead : s.heads.kvHead qHead < s.heads.numKvHeads := s.heads.kvHead_lt hhead
  have hoffset : ∀ kvPos, kvPos % attnBlockSize < attnBlockSize :=
    fun kvPos => Nat.mod_lt kvPos (by decide)
  refine congrArg₂ (attend a _) (funext fun kvPos => ?_) (funext fun kvPos => ?_)
  · refine congrArg (· * a.scale) (sum_congr rfl fun d hd => ?_)
    exact congrArg (q _ * ·) (decompressed_eq_restored k hk kRuns kBlocks _ (hoffset kvPos) hkvHead
      (mem_range.1 hd))
  · exact decompressed_eq_restored v hv vRuns vBlocks _ (hoffset kvPos) hkvHead hd

/-- **Fused attention is attention over the decompressed blocks.** Whatever
the device decides of either launch and of the decompressions, and whatever
the output and the decompressed blocks held before, the fused kernel leaves
the output as the paged kernel leaves it. -/
theorem attentionPagedTq_eq_pagedAttention (k v : Quantized K)
    (hk : k.bits ∈ TurboQuantConfig.validBits) (hv : v.bits ∈ TurboQuantConfig.validBits)
    (fused paged : Execution K kernelThreads s.numTokens s.heads.numQHeads)
    (kRuns vRuns : ℕ → Execution K kernelThreads attnBlockSize s.heads.numKvHeads)
    (kBlocks vBlocks : ℕ → ℕ → K) (output : ℕ → K) :
    attentionPagedTq a s fused q blockTable k v output =
      pagedAttention a s paged q blockTable
        (k.decompressed s.heads.numKvHeads s.headDim kRuns kBlocks)
        (v.decompressed s.heads.numKvHeads s.headDim vRuns vBlocks) output := by
  refine fused.grid_eq_grid paged
    (attendBlocks a s q blockTable (k.restored s.headDim) (v.restored s.headDim)) s.headDim
    ?_ ?_ output
  · intro tokenIdx htoken qHead hhead
    exact attentionPagedTqBlock_writes a s q blockTable _ _ htoken hhead k v
  · intro tokenIdx htoken qHead hhead
    refine (pagedAttentionBlock_writes a s q blockTable _ _ htoken hhead _ _).congr ?_
    intro d hd
    exact attendBlocks_decompressed a s q blockTable k v hk hv kRuns vRuns kBlocks vBlocks hhead hd

end Kernels

/-- Two tokens of two query heads with one key and value head, over twenty
cached tokens. -/
def smallShape : AttentionShape where
  heads := ⟨2, 1, by decide, by decide⟩
  numTokens := 2
  headDim := 3
  kvLen := 20
  startPos := 18

def smallArith : Arith ℚ := ⟨fun x => x * x + 1, 1 / 2, 1000⟩

/-- Packed rows that differ from block to block. -/
def smallRows (bits : ℕ) : Quantized ℚ where
  packed b i := UInt8.ofNat (b * 16 + i)
  norms b row := b + row
  rotation i := if i % 4 = 0 then 1 else 0
  centroids i := i
  bits := bits
  packedDimPerHead := packedDimPerHead 3 bits

theorem attentionPagedTq_small :
    4 ∈ TurboQuantConfig.validBits ∧ 2 ∈ TurboQuantConfig.validBits ∧
      attentionPagedTq smallArith smallShape (Execution.inOrder _ 2 2 7)
          (fun i => (i : ℚ)) (fun b => 3 - 2 * b) (smallRows 4) (smallRows 2) (fun _ => 0) =
        pagedAttention smallArith smallShape (Execution.inOrder _ 2 2 9)
          (fun i => (i : ℚ)) (fun b => 3 - 2 * b)
          ((smallRows 4).decompressed 1 3 (fun _ => Execution.inOrder _ _ 1 0) fun _ _ => 0)
          ((smallRows 2).decompressed 1 3 (fun _ => Execution.inOrder _ _ 1 0) fun _ _ => 0)
          (fun _ => 0) :=
  ⟨by decide, by decide,
    attentionPagedTq_eq_pagedAttention _ smallShape _ _ (smallRows 4) (smallRows 2) (by decide)
      (by decide) _ _ _ _ _ _ _⟩

end Fracture.TurboQuant
