import Fracture.Engine.Model

/-!
# The batched forward pass

Several sequences go through the layers together: their tokens are
packed one behind the other into one tensor, the arithmetic runs on the
packed rows, and only the cache and attention are entered sequence by
sequence. `batchedForward` runs a whole model and `batchedForwardNode`
the layers of one pipeline node. The two differ in how they find the
boundaries between sequences, by token ids or by positions, and in what
they take and return; the layer loop is the same.

Tensors that are written in full before they are read are values here.
The slices, the attention buffer, which keeps its rows from layer to
layer, and the extracted rows are allocated and copied as in the source.
-/

namespace Fracture

open Effect

variable {R W F C : Type}

/-- One sequence's part of a batch. -/
structure SequenceSlice where
  handle : CacheHandle
  /-- A prompt, a chunk of one, or a single token to decode. -/
  tokenIds : List ℕ
  /-- Absolute positions for the rotary embedding. -/
  positions : List ℕ
  deriving DecidableEq, Repr

/-- A sequence's place in a packed batch: its rows `start..stop`, and its
cached length before the batch. -/
structure Placed where
  handle : CacheHandle
  start : ℕ
  stop : ℕ
  startPos : ℕ
  deriving DecidableEq, Repr

/-- Place sequences of the given row counts one behind the other from
`offset` on. -/
def place (offset : ℕ) : List (CacheHandle × ℕ) → List ℕ → List Placed
  | (handle, n) :: rest, startPos :: more =>
    { handle, start := offset, stop := offset + n, startPos } :: place (offset + n) rest more
  | _, _ => []

section

variable [PagedCache C R]

/-- The cached length of every sequence of a batch. -/
def startPositions (cache : C) (sequences : List SequenceSlice) : Except Fault (List ℕ) :=
  sequences.mapM fun s => PagedCache.seqLen cache s.handle

/-- Append each sequence's keys and values on one cache layer. -/
def appendSlices (b : Backend R W F) (cacheIdx : ℕ) (k v : List R) :
    List Placed → EStateM Fault C Unit
  | [] => pure ()
  | p :: rest => do
    let n := p.stop - p.start
    let kSlice ← b.alloc n
    let vSlice ← b.alloc n
    let kSlice ← b.copyRows k kSlice p.start 0 n
    let vSlice ← b.copyRows v vSlice p.start 0 n
    PagedCache.appendKv b p.handle cacheIdx kSlice vSlice
    appendSlices b cacheIdx k v rest

/-- Attention of each sequence on one cache layer, written into its part
of the attention buffer. -/
def attendSlices (b : Backend R W F) (cache : C) (cacheIdx numKvHeads : ℕ) (q : List R) :
    List Placed → List R → Except Fault (List R)
  | [], attnOut => pure attnOut
  | p :: rest, attnOut => do
    let n := p.stop - p.start
    let qSlice ← b.alloc n
    let qSlice ← b.copyRows q qSlice p.start 0 n
    let attn ← PagedCache.dispatchAttention b cache qSlice p.handle cacheIdx numKvHeads
      (p.startPos + n) p.startPos
    let attnOut ← b.copyRows attn attnOut 0 p.start n
    attendSlices b cache cacheIdx numKvHeads q rest attnOut

/-- One layer of a batch: the hidden state and the attention buffer. -/
def batchedLayer (b : Backend R W F) (cfg : ModelConfig) (w : LayerWeights W)
    (positions : List ℕ) (placed : List Placed) (cacheIdx : ℕ) (x attnOut : List R) :
    EStateM Fault C (List R × List R) := do
  let (q, k, v) ← qkv b cfg w positions x
  appendSlices b cacheIdx k v placed
  let cache ← get
  let attnOut ← attendSlices b cache cacheIdx cfg.numKvHeads q placed attnOut
  let x ← finishLayer b cfg w x attnOut
  return (x, attnOut)

/-- The layer loop: weights and cache layers are both counted from the
start of the range. -/
def batchedLayers (b : Backend R W F) (weights : WeightStore W) (positions : List ℕ)
    (placed : List Placed) (first : ℕ) : List ℕ → List R → List R → EStateM Fault C (List R)
  | [], x, _ => pure x
  | layerIdx :: rest, x, attnOut => do
    let weightIdx := layerIdx - first
    let cacheIdx := weightIdx
    let w ← index weights.layers weightIdx
    let (x, attnOut) ← batchedLayer b weights.config w positions placed cacheIdx x attnOut
    batchedLayers b weights positions placed first rest x attnOut

end

/-- The last row of each sequence, projected to logits. -/
def lastLogits (b : Backend R W F) (weights : WeightStore W) (normed : List R)
    (placed : List Placed) : Except Fault (List (List F)) :=
  placed.mapM fun p => do
    let lastIdx ← checkedSub p.stop 1
    let lastHidden ← extractRow b normed lastIdx
    projectRow b weights lastHidden

variable [PagedCache C R] (b : Backend R W F) (weights : WeightStore W) (nodeConfig : NodeConfig)
  (sequences : List SequenceSlice)

/-- Run a batch through the whole model; the result has the logits of
each sequence's last token. -/
def batchedForward (layerRange : LayerRange) (sequences : List SequenceSlice) : EStateM Fault C
    (List (List F)) :=
  if sequences.isEmpty then pure [] else do
  let tokenIds := sequences.flatMap (·.tokenIds)
  let positions := sequences.flatMap (·.positions)
  let starts ← startPositions (← get) sequences
  let placed := place 0 (sequences.map fun s => (s.handle, s.tokenIds.length)) starts
  let x ← b.embedding tokenIds weights.tokenEmbedding
  let attnOut ← b.alloc tokenIds.length
  let x ← batchedLayers b weights positions placed layerRange.start layerRange.layers x attnOut
  let normed ← b.rmsnorm x weights.outputNorm weights.config.rmsNormEps
  lastLogits b weights normed placed

/-- The hidden state a node starts from: the embedding of the batch's
tokens on the head, the activations it was sent elsewhere. -/
def batchedInput (totalTokens : ℕ) (input : Option (Activations R)) :
    Except Fault (Activations R) :=
  if nodeConfig.isHead then
    if input.isSome then
      err (.pipeline "head node received activations in batched_forward_node")
    else
      let tokenIds := sequences.flatMap (·.tokenIds)
      let count := tokenIds.length
      if count ≠ totalTokens then
        err (.invalidShape
          s!"token count mismatch: {count} token_ids vs {totalTokens} positions")
      else do
        let rows ← b.embedding tokenIds weights.tokenEmbedding
        return { rows, width := weights.config.hiddenSize }
  else
    match input with
    | some hs =>
      let rows := hs.rows.length
      let width := hs.width
      let hidden := weights.config.hiddenSize
      if rows ≠ totalTokens ∨ width ≠ hidden then
        err (.invalidShape
          s!"activation shape [{rows}, {width}] doesn't match expected [{totalTokens}, {hidden}]")
      else .ok hs
    | none => err (.pipeline "non-head node requires activations in batched_forward_node")

/-- Run a batch through the layers of one node. A tail returns the logits
of all sequences in one list. -/
def batchedForwardNode (input : Option (Activations R)) :
    EStateM Fault C (NodeOutput R F) :=
  if sequences.isEmpty then throw (.error (.pipeline "batched_forward_node: no sequences")) else do
  let positions := sequences.flatMap (·.positions)
  let totalTokens := positions.length
  let hiddenState ← batchedInput b weights nodeConfig sequences totalTokens input
  let starts ← startPositions (← get) sequences
  let placed := place 0 (sequences.map fun s => (s.handle, s.positions.length)) starts
  let attnOut ← b.alloc totalTokens
  let range := nodeConfig.layerRange
  let x ← batchedLayers b weights positions placed range.start range.layers hiddenState.rows
    attnOut
  if nodeConfig.isTail then
    let normed ← b.rmsnorm x weights.outputNorm weights.config.rmsNormEps
    let logits ← lastLogits b weights normed placed
    return .logits logits.flatten
  else
    return .activations { rows := x, width := hiddenState.width }

end Fracture
