import Fracture.PagedCache.Model

/-!
# Models, nodes and the steps of a layer

The weights of a model, the part of it a node runs, and the arithmetic
of one transformer layer. Every forward pass of the engine repeats that
arithmetic around its own way of storing keys and values: `qkv` comes
before the cache is touched, `finishLayer` after attention.
-/

namespace Fracture

open Effect

variable {R W F : Type}

/-- The architecture parameters of a model. -/
structure ModelConfig where
  hiddenSize : ℕ
  numLayers : ℕ
  numQHeads : ℕ
  numKvHeads : ℕ
  headDim : ℕ
  intermediateSize : ℕ
  vocabSize : ℕ
  ropeTheta : ℚ
  rmsNormEps : ℚ
  maxSeqLen : ℕ

/-- The weights of one transformer layer. -/
structure LayerWeights (W : Type) where
  qProj : W
  kProj : W
  vProj : W
  oProj : W
  gateProj : W
  upProj : W
  downProj : W
  attnNorm : W
  ffnNorm : W

/-- The weights a node has loaded; `layers` are those of its layer range. -/
structure WeightStore (W : Type) where
  config : ModelConfig
  tokenEmbedding : W
  layers : List (LayerWeights W)
  outputNorm : W
  lmHead : W

/-- A range of layer indices, without its end. -/
structure LayerRange where
  start : ℕ
  stop : ℕ
  deriving DecidableEq, Repr

namespace LayerRange

/-- The layers of the range, in order. -/
def layers (r : LayerRange) : List ℕ := List.range' r.start (r.stop - r.start)

def len (r : LayerRange) : ℕ := r.stop - r.start

end LayerRange

/-- The part of a pipeline a node is responsible for. -/
structure NodeConfig where
  layerRange : LayerRange
  totalLayers : ℕ
  nonempty : layerRange.start < layerRange.stop
  bounded : layerRange.stop ≤ totalLayers

namespace NodeConfig

def new (layerRange : LayerRange) (totalLayers : ℕ) : Except Fault NodeConfig :=
  if hempty : layerRange.start < layerRange.stop then
    if hend : layerRange.stop ≤ totalLayers then
      .ok { layerRange, totalLayers, nonempty := hempty, bounded := hend }
    else
      let stop := layerRange.stop
      err (.pipeline s!"layer_range end {stop} exceeds total_layers {totalLayers}")
  else err (.pipeline "layer_range must not be empty")

/-- Whether the node owns the embedding lookup. -/
def isHead (n : NodeConfig) : Bool := n.layerRange.start == 0

/-- Whether the node owns the final norm and the projection to logits. -/
def isTail (n : NodeConfig) : Bool := n.layerRange.stop == n.totalLayers

end NodeConfig

section

variable (b : Backend R W F) (cfg : ModelConfig) (w : LayerWeights W)

/-- An activation tensor: its rows, and the width its shape gives. -/
structure Activations (R : Type) where
  rows : List R
  width : ℕ

/-- What a node's forward pass is given. -/
inductive NodeInput (R : Type)
  | tokenIds (ids positions : List ℕ)
  | activations (hiddenStates : Activations R) (positions : List ℕ)

/-- What a node's forward pass returns. -/
inductive NodeOutput (R F : Type)
  | logits (values : List F)
  | activations (hiddenStates : Activations R)

/-! ## One layer -/

/-- The queries, keys and values of a layer: normalise, project, and
rotate queries and keys by their positions. Queries are projected to rows
of the hidden size, and read in rows of so many heads from then on. -/
def qkv (positions : List ℕ) (x : List R) : Except Fault (List R × List R × List R) := do
  let normed ← b.rmsnorm x w.attnNorm cfg.rmsNormEps
  let q ← b.matmul normed w.qProj
  let k ← b.matmul normed w.kProj
  let v ← b.matmul normed w.vProj
  let q := b.view cfg.hiddenSize (cfg.numQHeads * cfg.headDim) q
  let (q, k) ← b.rope q k positions cfg.ropeTheta cfg.headDim
  return (q, k, v)

/-- The rest of a layer after attention, whose result was written in rows of
heads and is read in rows of the hidden size: output projection and
residual, then the feed-forward network and its residual. -/
def finishLayer (x attnOut : List R) : Except Fault (List R) := do
  let attnOut := b.view (cfg.numQHeads * cfg.headDim) cfg.hiddenSize attnOut
  let projected ← b.matmul attnOut w.oProj
  let x ← b.add x projected
  let normed ← b.rmsnorm x w.ffnNorm cfg.rmsNormEps
  let gate ← b.matmul normed w.gateProj
  let up ← b.matmul normed w.upProj
  let mid ← b.siluMul gate up
  let out ← b.matmul mid w.downProj
  b.add x out

/-- The logits of one normalised row, read back to the host. -/
def projectRow (weights : WeightStore W) (last : List R) :
    Except Fault (List F) := do
  let logits ← b.matmul last weights.lmHead
  b.copyToHost logits weights.config.vocabSize

/-- Copy one row of a tensor into a tensor of its own. -/
def extractRow (x : List R) (row : ℕ) : Except Fault (List R) := do
  let last ← b.alloc 1
  b.copyRows x last row 0 1

end

/-! ## Caches a forward pass can run on -/

/-- The cache operations the batched forward passes are generic over. -/
class PagedCache (C : Type) (R : outParam Type) where
  seqLen : C → CacheHandle → Except Fault ℕ
  appendKv {W F : Type} (b : Backend R W F) (handle : CacheHandle) (layer : ℕ)
    (keys values : List R) : EStateM Fault C Unit
  /-- Attention of one sequence on one cache layer. -/
  dispatchAttention {W F : Type} (b : Backend R W F) (cache : C) (q : List R)
    (handle : CacheHandle) (cacheIdx numKvHeads kvLen startPos : ℕ) : Except Fault (List R)
  alloc : EStateM Fault C CacheHandle
  free : CacheHandle → EStateM Fault C Unit

/-- Attention through the block table of a sequence. The tensors of every
block of the pool are collected first, which panics on a layer the pool
does not have. -/
def PagedKvCacheManager.dispatchAttention (b : Backend R W F) (c : PagedKvCacheManager R)
    (q : List R) (handle : CacheHandle) (cacheIdx numKvHeads kvLen startPos : ℕ) :
    Except Fault (List R) := do
  let table ← c.blockTable handle
  (List.range c.pool.capacity).forM fun blockId => do
    let _ ← c.pool.tensor .k blockId cacheIdx
  (List.range c.pool.capacity).forM fun blockId => do
    let _ ← c.pool.tensor .v blockId cacheIdx
  b.attentionPaged q table (fun blockId => c.pool.blocks .k blockId cacheIdx)
    (fun blockId => c.pool.blocks .v blockId cacheIdx) numKvHeads kvLen startPos

instance : PagedCache (PagedKvCacheManager R) R where
  seqLen := PagedKvCacheManager.seqLen
  appendKv := PagedKvCacheManager.appendKv
  dispatchAttention := PagedKvCacheManager.dispatchAttention
  alloc := PagedKvCacheManager.alloc
  free := PagedKvCacheManager.free

end Fracture
