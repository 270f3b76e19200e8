import Fracture.Common.Related
import Fracture.Engine.Batched

/-!
# Serving a model whole or in stages

A host keeps a paged cache and the handle of every sequence it knows by
id. One host can serve batches through a whole model; or a chain of hosts
serves them, each with a range of the layers: the first embeds the
tokens, each hands its hidden states to the next, and the last returns
the logits of all sequences in one list, which is cut up again.
-/

namespace Fracture

open Effect Rows

variable {R W F : Type}

/-- One sequence's part of a batch, by the sequence's id. -/
structure SequenceRequest where
  seqId : ℕ
  tokenIds : List ℕ
  positions : List ℕ
  deriving DecidableEq, Repr

/-- A paged cache and the handles of its sequences. -/
structure HostedCache (R : Type) where
  cache : PagedKvCacheManager R
  handles : AList fun _ : ℕ => CacheHandle

namespace HostedCache

def cacheAlloc (seqId : ℕ) (host : HostedCache R) : Except Fault (HostedCache R) :=
  match host.handles.lookup seqId with
  | some _ => err (.pipeline s!"CacheAlloc for seq {seqId}: cache already allocated")
  | none => do
    let (handle, cache) ← outcome (PagedKvCacheManager.alloc host.cache)
    return { cache, handles := host.handles.insert seqId handle }

def cacheFree (seqId : ℕ) (host : HostedCache R) : Except Fault (HostedCache R) :=
  match host.handles.lookup seqId with
  | none => err (.pipeline s!"CacheFree for seq {seqId}: no cache allocated")
  | some handle => do
    let ((), cache) ← outcome (PagedKvCacheManager.free handle host.cache)
    return { cache, handles := host.handles.erase seqId }

/-- The batch on this host's handles. Only a host that embeds the tokens
is sent them; the others count rows by positions. -/
def slices (host : HostedCache R) (withTokens : Bool) (requests : List SequenceRequest) :
    Except Fault (List SequenceSlice) :=
  requests.mapM fun r =>
    match host.handles.lookup r.seqId with
    | some handle =>
      .ok { handle, tokenIds := if withTokens then r.tokenIds else [], positions := r.positions }
    | none =>
      let seqId := r.seqId
      err (.pipeline s!"BatchedForward: seq {seqId} has no paged cache (missing CacheAlloc)")

end HostedCache

/-- A node of a pipeline: its weights, its part of the layers, its cache. -/
structure Stage (R W : Type) where
  nodeId : String
  weights : WeightStore W
  nodeConfig : NodeConfig
  host : HostedCache R

namespace Stage

/-- A batch through one node. -/
def batchedForward (b : Backend R W F) (requests : List SequenceRequest)
    (input : Option (Activations R)) (s : Stage R W) :
    Except Fault (NodeOutput R F × Stage R W) := do
  let sequences ← s.host.slices input.isNone requests
  let (output, cache) ← outcome (batchedForwardNode b s.weights s.nodeConfig sequences input
    s.host.cache)
  return (output, { s with host := { s.host with cache } })

/-- A change to one node's cache. -/
def onHost (f : HostedCache R → Except Fault (HostedCache R)) (s : Stage R W) :
    Except Fault (Stage R W) := do
  let host ← f s.host
  return { s with host }

end Stage

/-- Cut the logits of a batch up, evenly over its sequences. -/
def splitLogitsPerSequence (allLogits : List F) (numSequences : ℕ) : List (List F) :=
  let vocabSize := allLogits.length / numSequences
  (List.range numSequences).map fun si => window allLogits (si * vocabSize) vocabSize

/-- A batch through all nodes of a pipeline, in order. -/
def chainForward (b : Backend R W F) (requests : List SequenceRequest) :
    List (Stage R W) → Option (Activations R) → Except Fault (List (List F) × List (Stage R W))
  | [], _ => err (.pipeline "batched pipeline completed without producing logits")
  | s :: rest, input => do
    let (output, s) ← s.batchedForward b requests input
    let nodeId := s.nodeId
    match output, rest with
    | .logits flat, [] => return (splitLogitsPerSequence flat requests.length, [s])
    | .logits _, _ :: _ =>
      err (.pipeline s!"non-tail worker '{nodeId}' returned logits in batched forward")
    | .activations _, [] =>
      err (.pipeline s!"tail worker '{nodeId}' returned activations in batched forward")
    | .activations hiddenStates, _ :: _ => do
      let (logits, rest) ← chainForward b requests rest (some hiddenStates)
      return (logits, s :: rest)

/-! ## Histories -/

/-- What a client asks of the model: room for a new sequence, a batch,
or the end of a sequence. -/
inductive ServeOp
  | alloc (seqId : ℕ)
  | free (seqId : ℕ)
  | forward (requests : List SequenceRequest)

/-- One host with the whole model. -/
def serveWhole (b : Backend R W F) (weights : WeightStore W) (layerRange : LayerRange) :
    ServeOp → HostedCache R → Except Fault (List (List F) × HostedCache R)
  | .alloc seqId, host => do return ([], ← host.cacheAlloc seqId)
  | .free seqId, host => do return ([], ← host.cacheFree seqId)
  | .forward requests, host => do
    let sequences ← host.slices true requests
    let (logits, cache) ← outcome (batchedForward b weights layerRange sequences host.cache)
    return (logits, { host with cache })

/-- A chain of hosts, each with its stage of the model. -/
def serveChain (b : Backend R W F) :
    ServeOp → List (Stage R W) → Except Fault (List (List F) × List (Stage R W))
  | .alloc seqId, stages => do
    return ([], ← stages.mapM (Stage.onHost (HostedCache.cacheAlloc seqId)))
  | .free seqId, stages => do
    return ([], ← stages.mapM (Stage.onHost (HostedCache.cacheFree seqId)))
  | .forward requests, stages => chainForward b requests stages none

end Fracture
