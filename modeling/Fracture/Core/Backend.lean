import Fracture.Common.Effect
import Fracture.Common.Paging
import Fracture.Core.Error
import Mathlib.Data.Rat.Defs

/-!
# The device backend

A device tensor is its rows: the leading dimension counts tokens. A
multi-head view of a flat tensor is another reading of the same memory, and
has the same rows only where its rows are as wide. `Backend` has the
operations the forward passes call, each with the values it reads as
arguments and the tensor it writes as its result. What they compute is
left open; `Sound` and `Reliable` say what their documentation and their
kernels promise about row counts, row copies and the rows paged
attention looks at.

Scratch tensors are values here, so releasing them and synchronising the
device, which carry no data, have no counterpart.
-/

namespace Fracture

open Rows

/-- Tokens per cache block; the attention kernel is built for this size. -/
def blockSize : ℕ := 16

/-- The backend operations. `R` is one row of a tensor, `W` a weight
tensor, `F` a logit on the host. -/
structure Backend (R W F : Type) where
  /-- Fresh device memory of so many rows: whatever is in it. -/
  alloc : ℕ → Except Fault (List R)
  /-- The rows of a tensor, of the first width, when its memory is read in as
  many rows of the second. Where these reach behind what was written, they
  have what the memory was allocated with. -/
  view : ℕ → ℕ → List R → List R
  /-- Look up the embedding row of each token. -/
  embedding : List ℕ → W → Except Fault (List R)
  /-- Root-mean-square normalisation of each row. -/
  rmsnorm : List R → W → ℚ → Except Fault (List R)
  /-- Product with a weight matrix. -/
  matmul : List R → W → Except Fault (List R)
  /-- Rotary embedding of queries and keys, in place. -/
  rope : List R → List R → List ℕ → ℚ → ℕ → Except Fault (List R × List R)
  /-- Attention over a contiguous cache: queries, keys, values, number of
  key-value heads, start position. -/
  attention : List R → List R → List R → ℕ → ℕ → Except Fault (List R)
  /-- Attention over a paged cache: queries, block table, the pool's key
  and value blocks, number of key-value heads, cached length, start
  position. -/
  attentionPaged : List R → List ℕ → (ℕ → List R) → (ℕ → List R) → ℕ → ℕ → ℕ →
    Except Fault (List R)
  /-- `silu(gate) * up`. -/
  siluMul : List R → List R → Except Fault (List R)
  /-- Sum, row by row. -/
  add : List R → List R → Except Fault (List R)
  /-- Source, destination, source offset, destination offset, row count;
  the result is the destination after the copy. -/
  copyRows : List R → List R → ℕ → ℕ → ℕ → Except Fault (List R)
  /-- Read so many values of a tensor back to the host. -/
  copyToHost : List R → ℕ → Except Fault (List F)

namespace Backend

variable {R W F : Type}

/-- What a successful operation gives. The row counts are those of the
tensors the engine allocates for the results; `copyRows` copies the rows
it is asked for and no others; paged attention looks at the cached rows
through the block table only. -/
structure Sound (b : Backend R W F) : Prop where
  alloc_length : ∀ {n t}, b.alloc n = .ok t → t.length = n
  view_length : ∀ n m x, (b.view n m x).length = x.length
  view_self : ∀ n x, b.view n n x = x
  embedding_length : ∀ {ids w t}, b.embedding ids w = .ok t → t.length = ids.length
  rmsnorm_length : ∀ {x w eps t}, b.rmsnorm x w eps = .ok t → t.length = x.length
  matmul_length : ∀ {x w t}, b.matmul x w = .ok t → t.length = x.length
  rope_length : ∀ {q k ps theta d t}, b.rope q k ps theta d = .ok t →
    t.1.length = q.length ∧ t.2.length = k.length
  attentionPaged_length : ∀ {q bt kb vb n len pos t},
    b.attentionPaged q bt kb vb n len pos = .ok t → t.length = q.length
  siluMul_length : ∀ {x y t}, b.siluMul x y = .ok t → t.length = x.length
  add_length : ∀ {x y t}, b.add x y = .ok t → t.length = x.length
  copyRows_eq : ∀ {src dst srcOff dstOff n t}, b.copyRows src dst srcOff dstOff n = .ok t →
    srcOff + n ≤ src.length ∧ dstOff + n ≤ dst.length ∧
      t = overwrite dst dstOff (window src srcOff n)
  copyToHost_length : ∀ {x n l}, b.copyToHost x n = .ok l → l.length = n
  attentionPaged_congr : ∀ {q bt kb vb bt' kb' vb' n len pos},
    (∀ t < len, Paging.read blockSize bt kb t = Paging.read blockSize bt' kb' t) →
    (∀ t < len, Paging.read blockSize bt vb t = Paging.read blockSize bt' vb' t) →
    b.attentionPaged q bt kb vb n len pos = b.attentionPaged q bt' kb' vb' n len pos

/-- A sound backend on which memory is there when asked for and a copy
inside both tensors goes through. -/
structure Reliable (b : Backend R W F) : Prop extends b.Sound where
  alloc_ok : ∀ n, ∃ t, b.alloc n = .ok t
  copyRows_ok : ∀ {src dst srcOff dstOff n}, srcOff + n ≤ src.length → dstOff + n ≤ dst.length →
    ∃ t, b.copyRows src dst srcOff dstOff n = .ok t

/-- On a reliable backend a copy inside both tensors gives the destination
with the window laid over it. -/
theorem Reliable.copyRows_eq_ok {b : Backend R W F} (hb : b.Reliable) {src dst : List R}
    {srcOff dstOff n : ℕ} (hsrc : srcOff + n ≤ src.length) (hdst : dstOff + n ≤ dst.length) :
    b.copyRows src dst srcOff dstOff n = .ok (overwrite dst dstOff (window src srcOff n)) := by
  obtain ⟨t, ht⟩ := hb.copyRows_ok hsrc hdst
  rw [ht, (hb.copyRows_eq ht).2.2]

end Backend

/-!
## A reference backend

A backend on rows of one number that computes what the operations are
for in the simplest way: attention adds up the cached rows a query may
see, and the other operations act row by row. It satisfies everything
the development assumes of a backend, so none of those assumptions is
empty, and it runs.
-/

/-- The cached rows a query at row `i` may see: all up to itself. -/
def visible (cached : ℕ → Option ℕ) (len startPos i : ℕ) : ℕ :=
  ((List.range (min len (startPos + i + 1))).map fun t => (cached t).getD 0).sum

/-- Attention over the cached keys and values. -/
def attend (q : List ℕ) (keys values : ℕ → Option ℕ) (len startPos : ℕ) : List ℕ :=
  q.mapIdx fun i x => x + visible keys len startPos i + visible values len startPos i

/-- Apply an operation to two tensors of the same row count. -/
def zipRows {R : Type} (f : R → R → R) (x y : List R) : Except Fault (List R) :=
  if x.length = y.length then .ok (List.zipWith f x y)
  else err (.invalidShape "row counts differ")

/-- The reference backend. -/
def referenceBackend : Backend ℕ ℕ ℕ where
  alloc n := .ok (List.replicate n 0)
  view _ _ x := x
  embedding ids w := .ok (ids.map (· + w))
  rmsnorm x w _ := .ok (x.map (· + w))
  matmul x w := .ok (x.map (· * w))
  rope q k ps _ _ := do return (← zipRows (· + ·) q ps, ← zipRows (· + ·) k ps)
  attention q keys values _ startPos :=
    .ok (attend q (keys[·]?) (values[·]?) (startPos + q.length) startPos)
  attentionPaged q table keys values _ len startPos :=
    .ok (attend q (Paging.read blockSize table keys) (Paging.read blockSize table values) len
      startPos)
  siluMul := zipRows (· * ·)
  add := zipRows (· + ·)
  copyRows src dst srcOff dstOff n :=
    if srcOff + n ≤ src.length ∧ dstOff + n ≤ dst.length then
      .ok (overwrite dst dstOff (window src srcOff n))
    else err (.invalidShape "copy_rows out of range")
  copyToHost x n := .ok ((x ++ List.replicate n 0).take n)

theorem zipRows_length {R : Type} {f : R → R → R} {x y t : List R} (h : zipRows f x y = .ok t) :
    t.length = x.length := by
  unfold zipRows at h
  split at h
  · next hxy =>
    cases h
    rw [List.length_zipWith, hxy, Nat.min_self]
  · cases h

/-- What a query sees is decided by the indices below the cached length. -/
theorem visible_congr {cached cached' : ℕ → Option ℕ} {len : ℕ}
    (h : ∀ t < len, cached t = cached' t) (startPos i : ℕ) :
    visible cached len startPos i = visible cached' len startPos i := by
  unfold visible
  congr 1
  refine List.map_congr_left fun t ht => ?_
  rw [h t (by have := List.mem_range.1 ht; omega)]

theorem attend_congr {keys keys' values values' : ℕ → Option ℕ} {len : ℕ}
    (hk : ∀ t < len, keys t = keys' t) (hv : ∀ t < len, values t = values' t) (q : List ℕ)
    (startPos : ℕ) : attend q keys values len startPos = attend q keys' values' len startPos := by
  simp only [attend, visible_congr hk, visible_congr hv]

/-- **The reference backend is reliable.** -/
theorem referenceBackend_reliable : referenceBackend.Reliable where
  alloc_length h := by
    cases h
    exact List.length_replicate
  view_length _ _ _ := rfl
  view_self _ _ := rfl
  embedding_length h := by
    cases h
    exact List.length_map _
  rmsnorm_length h := by
    cases h
    exact List.length_map _
  matmul_length h := by
    cases h
    exact List.length_map _
  rope_length {q k ps theta d t} h := by
    obtain ⟨q', hq, h⟩ := Effect.except_bind_eq_ok.1 h
    obtain ⟨k', hk, h⟩ := Effect.except_bind_eq_ok.1 h
    cases h
    exact ⟨zipRows_length hq, zipRows_length hk⟩
  attentionPaged_length h := by
    cases h
    exact List.length_mapIdx
  siluMul_length h := zipRows_length h
  add_length h := zipRows_length h
  copyRows_eq {src dst srcOff dstOff n t} h := by
    simp only [referenceBackend] at h
    split at h
    · next hin =>
      cases h
      exact ⟨hin.1, hin.2, rfl⟩
    · cases h
  copyToHost_length h := by
    cases h
    simp
  attentionPaged_congr hk hv := congrArg Except.ok (attend_congr hk hv _ _)
  alloc_ok n := ⟨_, rfl⟩
  copyRows_ok {src dst srcOff dstOff n} hsrc hdst :=
    ⟨_, if_pos ⟨hsrc, hdst⟩⟩

/-- The keys and values of a new block, all zero. -/
def zeroBlock (_blockId _layer : ℕ) : Except FractureError (List ℕ × List ℕ) :=
  .ok (List.replicate blockSize 0, List.replicate blockSize 0)

theorem length_zeroBlock {blockId layer : ℕ} {keys values : List ℕ}
    (h : zeroBlock blockId layer = .ok (keys, values)) :
    keys.length = blockSize ∧ values.length = blockSize := by
  cases h
  exact ⟨List.length_replicate, List.length_replicate⟩

end Fracture
