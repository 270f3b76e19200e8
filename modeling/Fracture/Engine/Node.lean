import Fracture.Engine.Model

/-!
# The forward pass of one sequence

A node's forward pass over one sequence exists twice in the engine, once
over the paged cache and once over a cache with one contiguous tensor
per sequence and layer. Input checks, arithmetic and output are the same
in both; they differ in how keys and values are stored, and in when the
sequence's length moves on: with the append on the first layer, or after
the first layer is done.
-/

namespace Fracture

open Effect

variable {R W F C : Type}

/-! ## The contiguous cache -/

/-- The contiguous cache of one sequence: key and value rows per layer,
`maxLen` of them from the start. -/
structure SequenceCache (R : Type) where
  layers : List (Kv → List R)
  currentLen : ℕ
  maxLen : ℕ

/-- Contiguous caches of all sequences. -/
structure KvCacheManager (R : Type) where
  caches : AList fun _ : CacheHandle => SequenceCache R
  nextId : ℕ
  numLayers : ℕ
  maxSeqLen : ℕ

namespace KvCacheManager

def new (numLayers maxSeqLen : ℕ) : KvCacheManager R :=
  { caches := ∅, nextId := 0, numLayers, maxSeqLen }

/-- Allocate the tensors of a new sequence. The id is used up even when
the device has no memory for them. -/
def alloc (b : Backend R W F) : EStateM Fault (KvCacheManager R) CacheHandle := fun m =>
  let id := m.nextId
  let layers := (List.replicate m.numLayers ()).mapM fun _ => do
    let k ← b.alloc m.maxSeqLen
    let v ← b.alloc m.maxSeqLen
    return Kv.pick k v
  match layers with
  | .error e => .error e { m with nextId := id + 1 }
  | .ok layers =>
    .ok id { m with
      caches := m.caches.insert id { layers, currentLen := 0, maxLen := m.maxSeqLen }
      nextId := id + 1 }

/-- The cache under a handle, or the error for a handle that is not live. -/
def find (m : KvCacheManager R) (handle : CacheHandle) : Except Fault (SequenceCache R) :=
  match m.caches.lookup handle with
  | none => .error (PagedKvCacheManager.invalidHandle handle)
  | some seq => .ok seq

def seqLen (m : KvCacheManager R) (handle : CacheHandle) : Except Fault ℕ :=
  return (← m.find handle).currentLen

/-- Move the length on after an append. -/
def setSeqLen (handle : CacheHandle) (newLen : ℕ) : EStateM Fault (KvCacheManager R) Unit := fun m =>
  match m.find handle with
  | .error e => .error e m
  | .ok seq =>
    let maxLen := seq.maxLen
    if newLen > maxLen then
      .error (.error (.kvCache s!"seq_len {newLen} exceeds max_seq_len {maxLen}")) m
    else .ok () { m with caches := m.caches.insert handle { seq with currentLen := newLen } }

/-- The key or value tensor of a layer (`k_cache`, `v_cache`). -/
def tensor (m : KvCacheManager R) (kv : Kv) (handle : CacheHandle) (layer : ℕ) :
    Except Fault (List R) := do
  let seq ← m.find handle
  match seq.layers[layer]? with
  | some rows => return rows kv
  | none =>
    let count := seq.layers.length
    err (.kvCache s!"layer index {layer} out of bounds (num_layers={count})")

/-- The cache after a layer's key or value tensor was written. -/
def setTensor (m : KvCacheManager R) (kv : Kv) (handle : CacheHandle) (layer : ℕ)
    (rows : List R) : KvCacheManager R :=
  match m.caches.lookup handle with
  | none => m
  | some seq =>
    let layers := seq.layers.modify layer fun old => Function.update old kv rows
    { m with caches := m.caches.insert handle { seq with layers } }

/-- `copy_rows` into a layer's tensor, from the source's first row on. -/
def copyInto (b : Backend R W F) (kv : Kv) (src : List R) (handle : CacheHandle)
    (layer dstOff n : ℕ) : EStateM Fault (KvCacheManager R) Unit := fun m =>
  match m.tensor kv handle layer >>= fun dst => b.copyRows src dst 0 dstOff n with
  | .error e => .error e m
  | .ok rows => .ok () (m.setTensor kv handle layer rows)

end KvCacheManager

/-! ## The engine -/

/-- A backend, the weights of a range of layers, and that range. -/
structure Engine (R W F : Type) where
  backend : Backend R W F
  weights : WeightStore W
  layerRange : LayerRange

namespace Engine

variable (e : Engine R W F)

def config : ModelConfig := e.weights.config

/-- The hidden state a node starts from, its positions and its row count. -/
def resolveInput (input : NodeInput R) (nodeConfig : NodeConfig) :
    Except Fault (Activations R × List ℕ × ℕ) :=
  match input with
  | .tokenIds ids positions =>
    if ¬ nodeConfig.isHead then err (.pipeline "non-head node received TokenIds input")
    else if ids.isEmpty then err (.invalidShape "token_ids must not be empty")
    else do
      let rows ← e.backend.embedding ids e.weights.tokenEmbedding
      return ({ rows, width := e.config.hiddenSize }, positions, ids.length)
  | .activations hiddenStates positions =>
    if nodeConfig.isHead then err (.pipeline "head node received Activations input")
    else .ok (hiddenStates, positions, positions.length)

/-- Positions stay inside the rotary table. -/
def checkPositions (positions : List ℕ) : Except Fault Unit :=
  match positions.max? with
  | none => .ok ()
  | some maxPos =>
    let bound := e.config.maxSeqLen
    if maxPos ≥ bound then
      err (.invalidShape s!"position {maxPos} exceeds max_seq_len {bound}")
    else .ok ()

/-- The last of the normalised rows; a single row is used as it is. -/
def lastRow (b : Backend R W F) (normed : List R) (seqLen : ℕ) : Except Fault (List R) :=
  if seqLen > 1 then extractRow b normed (seqLen - 1) else .ok normed

/-- The output phase: a tail projects the last row, any other node hands
its hidden state on. -/
def nodeOutput (nodeConfig : NodeConfig) (width seqLen : ℕ) (x : List R) :
    Except Fault (NodeOutput R F) :=
  if nodeConfig.isTail then do
    let normed ← e.backend.rmsnorm x e.weights.outputNorm e.config.rmsNormEps
    let lastHidden ← lastRow e.backend normed seqLen
    return .logits (← projectRow e.backend e.weights lastHidden)
  else .ok (.activations { rows := x, width })

/-- The contiguous cache's length moves on once the first layer is done. -/
def advance (handle : CacheHandle) (layerIdx first newLen : ℕ) :
    EStateM Fault (KvCacheManager R) Unit :=
  if layerIdx = first then KvCacheManager.setSeqLen handle newLen else pure ()

/-- One layer over the contiguous cache. -/
def contiguousLayer (w : LayerWeights W) (positions : List ℕ) (handle : CacheHandle)
    (cacheIdx startPos seqLen : ℕ) (x : List R) : EStateM Fault (KvCacheManager R) (List R) := do
  let (q, k, v) ← qkv e.backend e.config w positions x
  let _ ← (← get).tensor .k handle cacheIdx
  let _ ← (← get).tensor .v handle cacheIdx
  KvCacheManager.copyInto e.backend .k k handle cacheIdx startPos seqLen
  KvCacheManager.copyInto e.backend .v v handle cacheIdx startPos seqLen
  let kCache ← (← get).tensor .k handle cacheIdx
  let vCache ← (← get).tensor .v handle cacheIdx
  let attnOut ← e.backend.attention q kCache vCache e.config.numKvHeads startPos
  finishLayer e.backend e.config w x attnOut

/-- The layer loop over the contiguous cache. -/
def contiguousLayers (positions : List ℕ) (handle : CacheHandle) (first startPos seqLen : ℕ) :
    List ℕ → List R → EStateM Fault (KvCacheManager R) (List R)
  | [], x => pure x
  | layerIdx :: rest, x => do
    let weightIdx ← checkedSub layerIdx e.layerRange.start
    let cacheIdx := layerIdx - first
    let w ← index e.weights.layers weightIdx
    let x ← e.contiguousLayer w positions handle cacheIdx startPos seqLen x
    advance handle layerIdx first (startPos + seqLen)
    contiguousLayers positions handle first startPos seqLen rest x

/-- A node's forward pass over the contiguous cache. -/
def forwardNode (input : NodeInput R) (nodeConfig : NodeConfig) (handle : CacheHandle) :
    EStateM Fault (KvCacheManager R) (NodeOutput R F) := do
  let (hiddenState, positions, seqLen) ← e.resolveInput input nodeConfig
  e.checkPositions positions
  let startPos ← (← get).seqLen handle
  let range := nodeConfig.layerRange
  let x ← e.contiguousLayers positions handle range.start startPos seqLen range.layers
    hiddenState.rows
  e.nodeOutput nodeConfig hiddenState.width seqLen x

section Paged

variable [PagedCache C R]

/-- One layer over a paged cache. -/
def pagedLayer (w : LayerWeights W) (positions : List ℕ) (handle : CacheHandle)
    (cacheIdx startPos seqLen : ℕ) (x : List R) : EStateM Fault C (List R) := do
  let (q, k, v) ← qkv e.backend e.config w positions x
  PagedCache.appendKv e.backend handle cacheIdx k v
  let attnOut ← PagedCache.dispatchAttention e.backend (← get) q handle cacheIdx
    e.config.numKvHeads (startPos + seqLen) startPos
  finishLayer e.backend e.config w x attnOut

/-- The layer loop over a paged cache. -/
def pagedLayers (positions : List ℕ) (handle : CacheHandle) (first startPos seqLen : ℕ) :
    List ℕ → List R → EStateM Fault C (List R)
  | [], x => pure x
  | layerIdx :: rest, x => do
    let weightIdx ← checkedSub layerIdx e.layerRange.start
    let cacheIdx := layerIdx - first
    let w ← index e.weights.layers weightIdx
    let x ← e.pagedLayer w positions handle cacheIdx startPos seqLen x
    pagedLayers positions handle first startPos seqLen rest x

/-- A node's forward pass over a paged cache. -/
def forwardNodePaged (input : NodeInput R) (nodeConfig : NodeConfig) (handle : CacheHandle) :
    EStateM Fault C (NodeOutput R F) := do
  let (hiddenState, positions, seqLen) ← e.resolveInput input nodeConfig
  e.checkPositions positions
  let startPos ← PagedCache.seqLen (← get) handle
  let range := nodeConfig.layerRange
  let x ← e.pagedLayers positions handle range.start startPos seqLen range.layers
    hiddenState.rows
  e.nodeOutput nodeConfig hiddenState.width seqLen x

/-- Token ids to logits through the whole model, over a paged cache. -/
def forwardPaged (tokenIds positions : List ℕ) (handle : CacheHandle) :
    EStateM Fault C (List F) := do
  let nodeConfig ← NodeConfig.new e.layerRange e.config.numLayers
  match ← e.forwardNodePaged (.tokenIds tokenIds positions) nodeConfig handle with
  | .logits values => return values
  | .activations _ =>
    throw (.error (.pipeline "full forward expected Logits but got Activations"))

end Paged

end Engine

end Fracture
