import Fracture.Distributed.Loop

/-!
# The workers behind the pipeline

A pipeline of workers, each with its layers and its paged cache. The
coordinator sends every worker what concerns it and reads an answer from
it; the workers do what they are asked in the order they are asked. The
network is given with a turn: who can be reached, in which order answers
come in, and what the coordinator reads in an answer's place.

The first worker gets the token ids of a batch in one list and cuts them
up by the metadata; the others get the activations of the one before.
-/

namespace Fracture

open Effect Rows

variable {R W F : Type}

/-- What a worker starts a batch from. -/
inductive ForwardInputWire (R : Type)
  | tokenIds (ids : List ℕ)
  | activations (hiddenStates : Activations R)

inductive ErrorCode
  | internal
  | outOfMemory
  | invalidSequence
  | protocolViolation
  deriving DecidableEq, Repr

/-- An error code as a debug print shows it. -/
def ErrorCode.debug : ErrorCode → String
  | .internal => "Internal"
  | .outOfMemory => "OutOfMemory"
  | .invalidSequence => "InvalidSequence"
  | .protocolViolation => "ProtocolViolation"

/-- A worker's answer when it could not do what it was asked. -/
structure ErrorPayload where
  errorCode : ErrorCode
  message : String
  deriving DecidableEq, Repr

/-! ## A worker -/

/-- The token ids of each sequence, `ids[offset..offset + n]`. A range past
the end panics. -/
def cutTokens (ids : List ℕ) : ℕ → List SequenceMetadataWire → Except Fault (List (List ℕ))
  | _, [] => pure []
  | offset, sequence :: rest =>
    let n := sequence.numTokens
    if offset + n ≤ ids.length then do
      let more ← cutTokens ids (offset + n) rest
      return window ids offset n :: more
    else .error (.panicked .indexOutOfBounds)

/-- The sequences of a batch under this host's handles, without tokens. -/
def HostedCache.sequencesOf (host : HostedCache R) (sequences : List SequenceMetadataWire) :
    Except Fault (List SequenceSlice) :=
  sequences.mapM fun sequence =>
    let seqId := sequence.seqId
    match host.handles.lookup seqId with
    | some handle => .ok { handle, tokenIds := [], positions := sequence.positions }
    | none =>
      err (.pipeline s!"BatchedForward: seq {seqId} has no paged cache (missing CacheAlloc)")

namespace Stage

/-- What a worker runs for a batch: its sequences, and the activations it
was sent. -/
def resolve (sequences : List SequenceMetadataWire) (input : ForwardInputWire R)
    (s : Stage R W) : Except Fault (List SequenceSlice × Option (Activations R)) := do
  let slices ← s.host.sequencesOf sequences
  match input with
  | .tokenIds ids => do
    let tokens ← cutTokens ids 0 sequences
    return (slices.zipWith (fun slice tokenIds => { slice with tokenIds }) tokens, none)
  | .activations hiddenStates => return (slices, some hiddenStates)

def handleBatchedForward (b : Backend R W F) (sequences : List SequenceMetadataWire)
    (input : ForwardInputWire R) : EStateM Fault (Stage R W) (NodeOutput R F) := fun s =>
  match s.resolve sequences input with
  | .error e => .error e s
  | .ok (slices, hiddenStates) =>
    match batchedForwardNode b s.weights s.nodeConfig slices hiddenStates s.host.cache with
    | .ok output cache => .ok output { s with host := { s.host with cache } }
    | .error e cache => .error e { s with host := { s.host with cache } }

/-- `CacheAlloc`: the answer, and the worker after it. It allocates a cache
of contiguous tensors first, for which its device may have no memory, and
frees that again when the paged cache has no block. Only the paged cache is
used for batches, so the other is not kept here. -/
def handleCacheAlloc (noMemory : String → Option FractureError) (seqId : ℕ) (s : Stage R W) :
    Except ErrorPayload Unit × Stage R W :=
  match s.host.handles.lookup seqId, noMemory s.nodeId with
  | some _, _ =>
    (.error { errorCode := .invalidSequence
              message := s!"CacheAlloc for seq {seqId}: cache already allocated" }, s)
  | none, some e =>
    let text := e.display
    (.error { errorCode := .outOfMemory
              message := s!"CacheAlloc for seq {seqId} failed: {text}" }, s)
  | none, none =>
    match PagedKvCacheManager.alloc s.host.cache with
    | .ok handle cache =>
      (.ok (), { s with host := { cache, handles := s.host.handles.insert seqId handle } })
    | .error e cache =>
      let text := e.display
      (.error { errorCode := .outOfMemory
                message := s!"CacheAlloc for seq {seqId} failed (paged): {text}" },
        { s with host := { s.host with cache } })

/-- `CacheFree`. The coordinator awaits no answer to it. -/
def handleCacheFree (seqId : ℕ) (s : Stage R W) : Stage R W :=
  match s.host.handles.lookup seqId with
  | none => s
  | some handle =>
    let cache := state (PagedKvCacheManager.free handle s.host.cache)
    { s with host := { cache, handles := s.host.handles.erase seqId } }

end Stage

/-! ## The pipeline -/

/-- What the network and the workers' devices do to the operations of a
turn. -/
structure Network where
  /-- The worker is in the registry. -/
  registered : String → Bool
  /-- The registry has the worker as ready. -/
  ready : String → Bool
  /-- Why a frame cannot be sent to the worker, if it cannot. -/
  sendError : String → Option FractureError
  /-- Why the worker's device has no memory for one more contiguous cache, if
  it has none. -/
  noMemory : String → Option FractureError
  /-- What the coordinator makes of something else it reads in place of
  the worker's answer to `CacheAlloc`, if there is. -/
  strayAck : String → Option (Except FractureError Unit)
  /-- Why the worker's answer to a batch is not read, if it is not. -/
  recvError : String → Option FractureError
  /-- The order in which answers come in. -/
  order : IterOrder

namespace Network

variable (net : Network)

/-- Why the worker is not sent a frame, if it is not. -/
def sendFault (nodeId : String) : Option FractureError :=
  if net.registered nodeId then net.sendError nodeId
  else some (.pipeline s!"worker '{nodeId}' not found in registry")

/-- A frame sent on the quiet gets through. -/
def reaches (nodeId : String) : Bool := (net.sendFault nodeId).isNone

/-- What an answer to `CacheAlloc` is taken for. -/
def readAck (nodeId : String) (answer : Except ErrorPayload Unit) : Except FractureError Unit :=
  match net.strayAck nodeId, answer with
  | some read, _ => read
  | none, .ok () => .ok ()
  | none, .error payload =>
    let message := payload.message
    let code := payload.errorCode.debug
    .error (.pipeline s!"worker '{nodeId}' failed CacheAlloc: {message} (code {code})")

end Network

/-- A pipeline: its workers in order, and the sequences it has allocated
caches for. -/
structure Cluster (R W : Type) where
  stages : List (Stage R W)
  allocatedSeqs : List ℕ

namespace Cluster

variable (b : Backend R W F) (net : Network) (cl : Cluster R W)

/-- Send `CacheAlloc` to one worker after the other, as long as they can be
reached. -/
def sendAllocs (seqId : ℕ) : List (Stage R W) →
    Option FractureError × List (String × Except ErrorPayload Unit) × List (Stage R W)
  | [] => (none, [], [])
  | s :: rest =>
    match net.sendFault s.nodeId with
    | some e => (some e, [], s :: rest)
    | none =>
      let answered := s.handleCacheAlloc net.noMemory seqId
      let sent := sendAllocs seqId rest
      (sent.1, (s.nodeId, answered.1) :: sent.2.1, answered.2 :: sent.2.2)

/-- Read the answers up to the first bad one: who succeeded before it. -/
def collectAcks : List (String × Except ErrorPayload Unit) → List String × Except FractureError Unit
  | [] => ([], .ok ())
  | (nodeId, answer) :: rest =>
    match net.readAck nodeId answer with
    | .error e => ([], .error e)
    | .ok () => (nodeId :: (collectAcks rest).1, (collectAcks rest).2)

/-- The answers as they come in. -/
def arriving (answers : List (String × Except ErrorPayload Unit)) :
    List (String × Except ErrorPayload Unit) :=
  (net.order.arrange (List.range answers.length)).filterMap (answers[·]?)

/-- `CacheFree` to some of the workers. -/
def freeOn (sent : String → Bool) (seqId : ℕ) (stages : List (Stage R W)) : List (Stage R W) :=
  stages.map fun s => if sent s.nodeId then s.handleCacheFree seqId else s

/-- Allocate caches for a sequence on all workers. When that fails, those
that have succeeded are told to free theirs. -/
def allocCache (seqId : ℕ) : EStateM FractureError (Cluster R W) Unit := fun cl =>
  if seqId ∈ cl.allocatedSeqs then
    .error (.pipeline s!"duplicate alloc_cache for seq {seqId}: cache already allocated") cl
  else
    let sent := sendAllocs net seqId cl.stages
    let collected := collectAcks net (arriving net sent.2.1)
    match sent.1, collected.2 with
    | none, .ok () => .ok () { stages := sent.2.2, allocatedSeqs := cl.allocatedSeqs ++ [seqId] }
    | none, .error e =>
      let stages := freeOn (fun nodeId => nodeId ∈ collected.1 && net.reaches nodeId) seqId sent.2.2
      .error e { cl with stages }
    | some e, _ => .error e { cl with stages := sent.2.2 }

/-- Send `CacheFree` to one worker after the other, as long as they can be
reached. -/
def sendFrees (seqId : ℕ) : List (Stage R W) → Option FractureError × List (Stage R W)
  | [] => (none, [])
  | s :: rest =>
    match net.sendFault s.nodeId with
    | some e => (some e, s :: rest)
    | none =>
      let sent := sendFrees seqId rest
      (sent.1, s.handleCacheFree seqId :: sent.2)

def freeCache (seqId : ℕ) : EStateM FractureError (Cluster R W) Unit := fun cl =>
  if seqId ∈ cl.allocatedSeqs then
    let sent := sendFrees net seqId cl.stages
    let cl := { stages := sent.2, allocatedSeqs := cl.allocatedSeqs.filter (· ≠ seqId) }
    match sent.1 with
    | none => .ok () cl
    | some e => .error e cl
  else .error (.pipeline s!"free_cache for seq {seqId}: not allocated or already freed") cl

/-- Free on the workers that are ready, whatever becomes of it. -/
def freeCacheBestEffort (seqId : ℕ) : Cluster R W :=
  { stages := freeOn (fun nodeId => net.ready nodeId && net.reaches nodeId) seqId cl.stages
    allocatedSeqs := cl.allocatedSeqs.filter (· ≠ seqId) }

/-- Give up all sequences, and free them on the workers that are ready. -/
def abortAllSequences : List ℕ × Cluster R W :=
  let seqIds := net.order.arrange cl.allocatedSeqs
  (seqIds,
    { stages := seqIds.foldl (fun stages seqId =>
        freeOn (fun nodeId => net.ready nodeId && net.reaches nodeId) seqId stages) cl.stages
      allocatedSeqs := [] })

/-! ## A batch -/

-- Answers to earlier batches that nobody has read, by worker.
variable (unread : String → Option (NodeOutput R F))

/-- Send one worker its part of a batch, and read an answer. An answer does
not say which batch it is for: one that was not read before is taken. -/
def askWorker (sequences : List SequenceMetadataWire) (input : ForwardInputWire R)
    (s : Stage R W) : Except FractureError (NodeOutput R F) × Stage R W :=
  let nodeId := s.nodeId
  match net.sendFault nodeId with
  | some e => (.error e, s)
  | none =>
    match net.recvError nodeId, unread nodeId, s.handleBatchedForward b sequences input with
    | some e, _, answered => (.error e, state answered)
    | none, some output, answered => (.ok output, state answered)
    | none, none, .ok output s => (.ok output, s)
    | none, none, .error (.panicked _) s => (.error (.io "early eof"), s)
    | none, none, .error (.error e) s =>
      let message := e.display
      let code := ErrorCode.internal.debug
      (.error (.pipeline
        s!"worker '{nodeId}' returned error during batched forward: {message} (code {code})"), s)

/-- Ask one worker after the other, each with the activations of the one
before. The last one's logits come in one list. -/
def forwardStages (sequences : List SequenceMetadataWire) :
    List (Stage R W) → ForwardInputWire R → Except FractureError (List F) × List (Stage R W)
  | [], _ => (.error (.pipeline "batched pipeline completed without producing logits"), [])
  | s :: rest, input =>
    let nodeId := s.nodeId
    let asked := askWorker b net unread sequences input s
    match asked.1 with
    | .error e => (.error e, asked.2 :: rest)
    | .ok (.logits flat) =>
      if rest.isEmpty then (.ok flat, [asked.2])
      else (.error (.pipeline s!"non-tail worker '{nodeId}' returned logits in batched forward"),
        asked.2 :: rest)
    | .ok (.activations hiddenStates) =>
      if rest.isEmpty then
        (.error (.pipeline s!"tail worker '{nodeId}' returned activations in batched forward"),
          [asked.2])
      else
        let forwarded := forwardStages sequences rest (.activations hiddenStates)
        (forwarded.1, asked.2 :: forwarded.2)

def batchedForward (sequences : List SequenceMetadataWire) (allTokenIds : List ℕ) :
    EStateM FractureError (Cluster R W) (List F) := fun cl =>
  match sequences.find? (·.seqId ∉ cl.allocatedSeqs) with
  | some sequence =>
    let seqId := sequence.seqId
    .error (.pipeline s!"batched_forward: seq {seqId} cache not allocated") cl
  | none =>
    let forwarded := forwardStages b net unread sequences cl.stages (.tokenIds allTokenIds)
    match forwarded.1 with
    | .ok flat => .ok flat { cl with stages := forwarded.2 }
    | .error e => .error e { cl with stages := forwarded.2 }

/-- The operations of a pipeline, with the network as it is and no answer
left over. Whether the batch has prompts in it makes no difference to the
workers. -/
def ops : PipelineOps (Cluster R W) F where
  allocCache := allocCache net
  batchedForward sequences allTokenIds _ :=
    batchedForward b net (fun _ => none) sequences allTokenIds
  freeCache := freeCache net
  freeCacheBestEffort seqId cl := cl.freeCacheBestEffort net seqId
  abortAllSequences cl := cl.abortAllSequences net

end Cluster

end Fracture
