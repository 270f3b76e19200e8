import Fracture.Engine.Pipeline
import Fracture.Scheduler.Model

/-!
# The distributed loop

The coordinator's version of the serving loop. It keeps requests and
running sequences as the local loop does, but the model is spread over
workers: caches are allocated and freed on all of them, and a batch goes
through the pipeline they form. Between batches the loop takes note of
workers that died, left or joined, and of new pipelines.

The loop is generic in the pipeline: what a pipeline answers to each of
its operations is given with every turn, and so is what the loop finds in
its channels, in the registry and at its timers.
-/

namespace Fracture

open Effect

variable {π F : Type}

/-- An active distributed sequence. The prompt tokens left are the last
ones before `currentPos`. -/
structure DistributedSequence where
  seqId : ℕ
  maxTokens : ℕ
  params : SamplingParams
  stopTokens : List ℕ
  currentPos : ℕ
  generatedTokens : List ℕ
  /-- Remaining prompt tokens for chunked prefill. -/
  remainingPrefill : List ℕ
  /-- The initial prefill has finished. -/
  prefillDone : Bool
  behind : remainingPrefill.length ≤ currentPos
  deriving DecidableEq

/-- The limits of the loop, and whether it can rebalance by itself. -/
structure DistributedLoopConfig where
  maxBatchSize : ℕ
  maxBatchTokens : ℕ
  maxPrefillTokens : ℕ
  /-- Free blocks to keep on the bottleneck worker. -/
  minFreeBlocksReserve : ℕ
  /-- A model config is there, which rebalancing needs. -/
  hasModelConfig : Bool

/-- One sequence's part of a batch on the wire. -/
structure SequenceMetadataWire where
  seqId : ℕ
  numTokens : ℕ
  /-- Absolute positions for the rotary embedding. -/
  positions : List ℕ
  deriving DecidableEq, Repr

/-! ## The batch -/

/-- A batch under construction. The token ids of all sequences are packed
one behind the other. -/
structure DistributedBatch where
  seqIds : List ℕ
  isPrefill : List Bool
  allTokenIds : List ℕ
  metas : List SequenceMetadataWire
  totalTokens : ℕ
  deriving DecidableEq, Repr

namespace DistributedSequence

variable (seq : DistributedSequence)

/-- The position of the first prompt token that is left. -/
def startPos : ℕ := seq.currentPos - seq.remainingPrefill.length

/-- The positions of a chunk: a range between two numbers cut to 32 bits. -/
def chunkPositions (chunkSize : ℕ) : List ℕ :=
  List.range' (asU32 seq.startPos) (asU32 (seq.startPos + chunkSize) - asU32 seq.startPos)

def prefillMeta (chunkSize : ℕ) : SequenceMetadataWire :=
  { seqId := seq.seqId, numTokens := chunkSize, positions := seq.chunkPositions chunkSize }

def decodeMeta : SequenceMetadataWire :=
  { seqId := seq.seqId, numTokens := 1, positions := [asU32 seq.currentPos] }

/-- The token a decode feeds back in. -/
def lastToken : ℕ := seq.generatedTokens.getLast?.getD 0

end DistributedSequence

namespace DistributedBatch

def empty : DistributedBatch :=
  { seqIds := [], isPrefill := [], allTokenIds := [], metas := [], totalTokens := 0 }

/-- The batch has no room for another sequence. -/
def full (cfg : DistributedLoopConfig) (batch : DistributedBatch) : Prop :=
  batch.totalTokens ≥ cfg.maxBatchTokens ∨ batch.seqIds.length ≥ cfg.maxBatchSize

instance (cfg : DistributedLoopConfig) (batch : DistributedBatch) : Decidable (batch.full cfg) :=
  inferInstanceAs (Decidable (_ ∨ _))

/-- Append one sequence's tokens and metadata. -/
def push (batch : DistributedBatch) (isPrefill : Bool) (tokens : List ℕ)
    (sequence : SequenceMetadataWire) : DistributedBatch :=
  { seqIds := batch.seqIds ++ [sequence.seqId]
    isPrefill := batch.isPrefill ++ [isPrefill]
    allTokenIds := batch.allTokenIds ++ tokens
    metas := batch.metas ++ [sequence]
    totalTokens := batch.totalTokens + sequence.numTokens }

/-- How much of a prompt goes into the batch. -/
def chunkSize (cfg : DistributedLoopConfig) (batch : DistributedBatch)
    (seq : DistributedSequence) : ℕ :=
  min (min seq.remainingPrefill.length cfg.maxPrefillTokens)
    (cfg.maxBatchTokens - batch.totalTokens)

/-- Prefills, in chunks. -/
def addPrefills (cfg : DistributedLoopConfig) :
    List DistributedSequence → DistributedBatch → DistributedBatch
  | [], batch => batch
  | seq :: rest, batch =>
    if seq.prefillDone || seq.remainingPrefill.isEmpty then addPrefills cfg rest batch
    else if batch.full cfg then batch
    else
      let n := batch.chunkSize cfg seq
      addPrefills cfg rest
        (batch.push true (seq.remainingPrefill.take n) (seq.prefillMeta n))

def addDecodes (cfg : DistributedLoopConfig) :
    List DistributedSequence → DistributedBatch → DistributedBatch
  | [], batch => batch
  | seq :: rest, batch =>
    if !seq.prefillDone then addDecodes cfg rest batch
    else if batch.full cfg then batch
    else addDecodes cfg rest (batch.push false [seq.lastToken] seq.decodeMeta)

/-- The batch of a set of sequences: prefills first, then decodes. -/
def build (cfg : DistributedLoopConfig) (seqs : List DistributedSequence) : DistributedBatch :=
  addDecodes cfg seqs (addPrefills cfg seqs empty)

end DistributedBatch

/-!
## A turn of the distributed loop

One pass through the coordinator's loop, phase by phase as in the source:
a new pipeline and new requests are taken, dead workers are buried, the
pipeline is rebalanced when nothing runs, requests are refused while the
pipeline is degraded, one request is admitted, and one batch is built,
run, sampled and cleaned up after.
-/

/-- What a pipeline answers to each of its operations, and how it is left.
The last worker's logits come in one list. -/
structure PipelineOps (π F : Type) where
  allocCache : ℕ → EStateM FractureError π Unit
  batchedForward : List SequenceMetadataWire → List ℕ → Bool → EStateM FractureError π (List F)
  freeCache : ℕ → EStateM FractureError π Unit
  freeCacheBestEffort : ℕ → π → π
  abortAllSequences : π → List ℕ × π

/-- What ends a wait of the loop. -/
inductive Wakeup (π : Type)
  | request (req : PendingRequest)
  | reconfigured (pipeline : π)
  | timer
  /-- All senders of requests are gone. -/
  | hangup

/-- What one turn finds around it. -/
structure DistributedTurn (π F : Type) where
  /-- A pipeline that was put together meanwhile. -/
  reconfigured : Option π
  submitted : List PendingRequest
  /-- All senders of requests are gone. -/
  disconnected : Bool
  /-- Workers that missed too many heartbeats. -/
  deadIds : List String
  /-- The pipeline rebalancing gets without the dead workers, if it can. -/
  recovered : Option π
  /-- Some worker is draining or waiting to join. -/
  needsRebalance : Bool
  /-- The pipeline rebalancing gets with those changes, if it can. -/
  rebalanced : Option π
  wakeup : Wakeup π
  /-- Free blocks of the bottleneck worker, as last heard. -/
  freeBlocks : ℕ
  ops : PipelineOps π F
  order : IterOrder
  /-- The draw for each sequence, from its logits. -/
  sample : ℕ → List F → SamplingParams → Except FractureError ℕ

structure DistributedState (π : Type) where
  pipeline : π
  pending : List PendingRequest
  active : AList fun _ : ℕ => DistributedSequence
  pipelineDegraded : Bool
  /-- The loop has returned. -/
  stopped : Bool
  /-- Every request received so far. -/
  received : List PendingRequest
  /-- Every event sent so far, with the sequence it was sent for. -/
  events : List (ℕ × GenerationEvent)

/-- A list of names as a debug print shows it. -/
def debugNames (names : List String) : String :=
  "[" ++ ", ".intercalate (names.map fun name => "\"" ++ name ++ "\"") ++ "]"

namespace DistributedState

variable (cfg : DistributedLoopConfig) (t : DistributedTurn π F) (st : DistributedState π)

def start (pipeline : π) : DistributedState π :=
  { pipeline, pending := [], active := ∅, pipelineDegraded := false, stopped := false,
    received := [], events := [] }

/-! ## Before the batch -/

/-- Remove a sequence, send its client a last event, and release what the
pipeline has for it. -/
def removeSeq (event : DistributedSequence → GenerationEvent) (release : ℕ → π → π)
    (st : DistributedState π) (seqId : ℕ) : DistributedState π :=
  match st.active.lookup seqId with
  | none => st
  | some seq =>
    { st with
      active := st.active.erase seqId
      events := st.events ++ [(seqId, event seq)]
      pipeline := release seq.seqId st.pipeline }

/-- Refuse every waiting request. -/
def rejectPending (message : String) : DistributedState π :=
  { st with
    pending := []
    events := st.events ++ st.pending.map fun req => (req.seqId, .error message) }

/-- Go over to another pipeline. -/
def switchTo (pipeline : π) : DistributedState π :=
  { st with pipeline, pipelineDegraded := false }

def checkReconfigured : DistributedState π :=
  match t.reconfigured with
  | some pipeline => st.switchTo pipeline
  | none => st

/-- Put requests on the waiting list. -/
def enqueue (reqs : List PendingRequest) : DistributedState π :=
  { st with pending := st.pending ++ reqs, received := st.received ++ reqs }

/-- Abort every sequence that the pipeline has caches for. -/
def abortAll : DistributedState π :=
  let died := debugNames t.deadIds
  let (aborted, pipeline) := t.ops.abortAllSequences st.pipeline
  aborted.foldl (removeSeq (fun _ => .error s!"worker died: {died}") fun _ pipeline => pipeline)
    { st with pipeline }

/-- Abort what the dead workers had a part in, and go on without them if
the rest can be rebalanced. -/
def buryDead : DistributedState π :=
  if t.deadIds.isEmpty then st else
  let died := debugNames t.deadIds
  let st := st.abortAll t
  match cfg.hasModelConfig, t.recovered with
  | true, some pipeline => { st with pipeline }
  | _, _ => { st with pipelineDegraded := true }.rejectPending
      s!"pipeline degraded: worker(s) {died} died"

/-- Let workers leave and join while nothing runs. -/
def rebalance : DistributedState π :=
  if st.active.keys.isEmpty && !st.pipelineDegraded && t.needsRebalance && cfg.hasModelConfig then
    match t.rebalanced with
    | some pipeline => { st with pipeline }
    | none => { st with pipelineDegraded := true }
  else st

/-- Refuse requests while the pipeline is degraded, and wait for another
if nothing runs. -/
def waitDegraded : DistributedState π :=
  let st := st.rejectPending "pipeline degraded: waiting for reconfiguration"
  if st.active.keys.isEmpty then
    match t.wakeup with
    | .reconfigured pipeline => st.switchTo pipeline
    | .request req => st.enqueue [req]
    | .hangup => { st with stopped := true }
    | .timer => st
  else st

/-- Wait for work when there is none. Only a request lets the turn go on. -/
def waitForWork : DistributedState π × Bool :=
  if st.pending.isEmpty && st.active.keys.isEmpty then
    match t.wakeup with
    | .request req => (st.enqueue [req], true)
    | .hangup => ({ st with stopped := true }, false)
    | .timer => (st, false)
    | .reconfigured pipeline => (st.switchTo pipeline, false)
  else (st, true)

/-- A sequence at its start. -/
def activate (req : PendingRequest) : DistributedSequence :=
  { seqId := req.seqId, maxTokens := req.maxTokens, params := req.params,
    stopTokens := req.stopTokens, currentPos := req.promptTokens.length, generatedTokens := [],
    remainingPrefill := req.promptTokens, prefillDone := false, behind := le_rfl }

/-- Before any heartbeat data there seem to be no free blocks, and then a
request is let in as well. -/
def canAdmit : Bool := t.freeBlocks > cfg.minFreeBlocksReserve || t.freeBlocks == 0

/-- Take one request in, if there is one. -/
def admitOne : DistributedState π :=
  match st.pending with
  | [] => st
  | req :: pending =>
    if canAdmit cfg t then
      match t.ops.allocCache req.seqId st.pipeline with
      | .ok () pipeline =>
        { st with pipeline, pending, active := st.active.insert req.seqId (activate req) }
      | .error e pipeline =>
        let text := e.display
        { st with
          pipeline, pending
          events := st.events ++ [(req.seqId, .error s!"cache allocation failed: {text}")] }
    else st

/-! ## The batch -/

/-- The running sequences, in the order of the map. -/
def values (order : IterOrder) : List DistributedSequence :=
  (order.arrange st.active.keys).filterMap st.active.lookup

/-- Give up the sequences of a batch that failed. -/
def abortBatch (e : FractureError) (seqIds : List ℕ) : DistributedState π :=
  let text := e.display
  seqIds.foldl
    (removeSeq (fun _ => .error s!"forward pass failed: {text}") t.ops.freeCacheBestEffort) st

end DistributedState

/-! ## Sampling -/

/-- Sampling in progress: running sequences, events sent, tokens drawn,
and sequences that are through. -/
structure DistributedSampling where
  active : AList fun _ : ℕ => DistributedSequence
  events : List (ℕ × GenerationEvent)
  sampled : List (ℕ × ℕ)
  completed : List ℕ

namespace DistributedSequence

/-- The chunk has been run. -/
def advance (seq : DistributedSequence) (chunkSize : ℕ) : DistributedSequence :=
  { seq with
    remainingPrefill := seq.remainingPrefill.drop chunkSize
    prefillDone := seq.prefillDone || (seq.remainingPrefill.drop chunkSize).isEmpty
    behind := List.length_drop ▸ (Nat.sub_le ..).trans seq.behind }

/-- A token was drawn. After a prompt the position is right already. -/
def pushToken (seq : DistributedSequence) (isPrefill : Bool) (token : ℕ) : DistributedSequence :=
  { seq with
    generatedTokens := seq.generatedTokens ++ [token]
    currentPos := if isPrefill then seq.currentPos else seq.currentPos + 1
    behind := seq.behind.trans (by split <;> omega) }

/-- Why a sequence that is through ended. -/
def stopReason (seq : DistributedSequence) : StopReason :=
  if seq.lastToken ∈ seq.stopTokens then .stop else .length

end DistributedSequence

namespace DistributedState

variable (t : DistributedTurn π F)

/-- Draw a token for a sequence. -/
def drawToken (st : DistributedSampling) (seqId : ℕ) (isPrefill : Bool) (seq : DistributedSequence)
    (logits : List F) : DistributedSampling :=
  match t.sample seqId logits seq.params with
  | .ok token =>
    let seq := seq.pushToken isPrefill token
    let st := { st with
      active := st.active.insert seqId seq, sampled := st.sampled ++ [(seqId, token)] }
    if token ∈ seq.stopTokens then { st with completed := st.completed ++ [seqId] }
    else
      let st := { st with events := st.events ++ [(seqId, .token token)] }
      if seq.generatedTokens.length ≥ seq.maxTokens then
        { st with completed := st.completed ++ [seqId] }
      else st
  | .error e =>
    let text := e.display
    { st with
      active := st.active.insert seqId seq
      events := st.events ++ [(seqId, .error s!"sampling failed: {text}")]
      completed := st.completed ++ [seqId] }

/-- Go on with one sequence of the batch. -/
def sampleEntry (st : DistributedSampling) (seqId : ℕ) (isPrefill : Bool) (chunkSize : ℕ)
    (logits : List F) : DistributedSampling :=
  match st.active.lookup seqId with
  | none => st
  | some seq =>
    let seq := if isPrefill then seq.advance chunkSize else seq
    if isPrefill && !seq.remainingPrefill.isEmpty then
      -- more chunks to go
      { st with active := st.active.insert seqId seq }
    else drawToken t st seqId isPrefill seq logits

/-- A sequence of a batch that came through. -/
structure SampleTask (F : Type) where
  seqId : ℕ
  isPrefill : Bool
  chunkSize : ℕ
  logits : List F

/-- The sequences of a batch, in its order, each with its logits. -/
def sampleTasks (batch : DistributedBatch) (logits : List (List F)) : List (SampleTask F) :=
  (batch.seqIds.zip (batch.isPrefill.zip (batch.metas.zip logits))).map fun e =>
    { seqId := e.1, isPrefill := e.2.1, chunkSize := e.2.2.1.numTokens, logits := e.2.2.2 }

/-- Draw for the whole batch. -/
def sampleAll (tasks : List (SampleTask F)) (st : DistributedSampling) : DistributedSampling :=
  tasks.foldl (fun st e => sampleEntry t st e.seqId e.isPrefill e.chunkSize e.logits) st

/-- Remove the sequences that are through. -/
def cleanupCompleted (st : DistributedState π) (completed : List ℕ) : DistributedState π :=
  completed.foldl
    (removeSeq (fun seq => .finished seq.stopReason seq.generatedTokens.length)
      fun seqId pipeline => state (t.ops.freeCache seqId pipeline)) st

/-! ## The turn -/

end DistributedState

/-- What a turn had run, and what came of it. -/
structure DistributedLog (π F : Type) where
  /-- The pipeline as it was given the batch. -/
  before : π
  batch : DistributedBatch
  /-- The logits, one list for each sequence. -/
  result : Except FractureError (List (List F))
  /-- The tokens drawn, with their sequences. -/
  sampled : List (ℕ × ℕ)

namespace DistributedState

variable (cfg : DistributedLoopConfig) (t : DistributedTurn π F) (st : DistributedState π)

/-- Draw from the logits of a batch, and remove what is through. -/
def conclude (batch : DistributedBatch) (logits : List (List F)) :
    List (ℕ × ℕ) × DistributedState π :=
  let drawn := sampleAll t (sampleTasks batch logits)
    { active := st.active, events := st.events, sampled := [], completed := [] }
  (drawn.sampled,
    cleanupCompleted t { st with active := drawn.active, events := drawn.events } drawn.completed)

/-- Run one batch. -/
def runBatch (batch : DistributedBatch) : DistributedLog π F × DistributedState π :=
  match t.ops.batchedForward batch.metas batch.allTokenIds (batch.isPrefill.any id) st.pipeline with
  | .error e pipeline =>
    ({ before := st.pipeline, batch, result := .error e, sampled := [] },
      abortBatch t { st with pipeline } e batch.seqIds)
  | .ok flat pipeline =>
    let logits := splitLogitsPerSequence flat batch.metas.length
    let (sampled, st') := conclude t { st with pipeline } batch logits
    ({ before := st.pipeline, batch, result := .ok logits, sampled }, st')

/-- Take a request in, and run one batch. -/
def serve : Option (DistributedLog π F) × DistributedState π :=
  let st := st.admitOne cfg t
  if st.active.keys.isEmpty then (none, st) else
  let batch := DistributedBatch.build cfg (st.values t.order)
  if batch.seqIds.isEmpty then (none, st) else
  let (log, st) := runBatch t st batch
  (some log, st)

/-- One pass through the loop. -/
def turn : Option (DistributedLog π F) × DistributedState π :=
  if st.stopped then (none, st) else
  let st := (st.checkReconfigured t).enqueue t.submitted
  if t.disconnected && st.pending.isEmpty && st.active.keys.isEmpty then
    (none, { st with stopped := true })
  else
    let st := (st.buryDead cfg t).rebalance cfg t
    if st.pipelineDegraded then (none, st.waitDegraded t)
    else match st.waitForWork t with
      | (st, false) => (none, st)
      | (st, true) => st.serve cfg t

end DistributedState

end Fracture
