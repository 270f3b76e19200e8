import Fracture.PagedCache.Model

/-!
# The batch scheduler

Iteration-level scheduling: every turn of the serving loop asks the
scheduler for a batch, decodes of the running sequences first, then the
next chunk of prompts already begun, then new requests from the queue.
The scheduler keeps its running sequences in a hash map, so a loop over
them runs in some order of the ids. The order is an argument here, and so
is which clients have closed their channel when they are asked. A send
that fails is ignored, so an event is only noted.
-/

namespace Fracture

open Effect

variable {R : Type}

/-- Why a generation ended. -/
inductive StopReason
  /-- A stop token was sampled. -/
  | stop
  /-- The token limit was reached. -/
  | length
  deriving DecidableEq, Repr

/-- What is sent to a client's response stream. -/
inductive GenerationEvent
  | token (id : ℕ)
  | finished (stopReason : StopReason) (completionTokens : ℕ)
  | error (message : String)
  deriving DecidableEq, Repr

/-- How the next token is drawn. -/
structure SamplingParams where
  temperature : ℚ
  topK : ℕ
  topP : ℚ
  seed : Option ℕ
  deriving DecidableEq

/-- A request waiting in the prefill queue. -/
structure PendingRequest where
  seqId : ℕ
  promptTokens : List ℕ
  maxTokens : ℕ
  params : SamplingParams
  stopTokens : List ℕ
  deriving DecidableEq

/-- A greedy request without stop tokens. -/
def PendingRequest.greedy (seqId : ℕ) (promptTokens : List ℕ) (maxTokens : ℕ) : PendingRequest :=
  { seqId, promptTokens, maxTokens, stopTokens := [],
    params := { temperature := 0, topK := 0, topP := 1, seed := none } }

/-- A sequence actively generating tokens. -/
structure ActiveSequence where
  seqId : ℕ
  handle : CacheHandle
  maxTokens : ℕ
  params : SamplingParams
  stopTokens : List ℕ
  currentPos : ℕ
  generatedTokens : List ℕ
  /-- Prompt tokens still to prefill; empty when the prompt is done. -/
  remainingPrefill : List ℕ
  deriving DecidableEq

/-- A job to prefill (part of) a sequence. -/
structure PrefillJob where
  seqId : ℕ
  tokenIds : List ℕ
  positions : List ℕ
  handle : CacheHandle
  deriving DecidableEq, Repr

/-- A job to decode one token for a sequence. -/
structure DecodeJob where
  seqId : ℕ
  tokenId : ℕ
  position : ℕ
  handle : CacheHandle
  deriving DecidableEq, Repr

/-- The scheduler's decision for one iteration. -/
structure SchedulerDecision where
  prefills : List PrefillJob
  decodes : List DecodeJob
  totalTokens : ℕ
  deriving DecidableEq, Repr

/-- The scheduler: queue, running sequences by id, and limits. -/
structure BatchScheduler where
  prefillQueue : List PendingRequest
  active : AList fun _ : ℕ => ActiveSequence
  maxBatchSize : ℕ
  maxBatchTokens : ℕ
  maxPrefillTokens : ℕ
  /-- The blocks held back for running sequences, by pool capacity; the
  source rounds up a fraction of the capacity in single precision. -/
  reservedBlocks : ℕ → ℕ

/-- The order in which a hash map gives its keys. -/
structure IterOrder where
  arrange : List ℕ → List ℕ
  perm : ∀ keys, (arrange keys).Perm keys

/-- `as u32`. -/
def asU32 (n : ℕ) : ℕ := n % 2 ^ 32

/-- An iteration under construction: the decision so far, the prompt
tokens in it, and what the scheduler has changed on the way. -/
structure Building (R : Type) where
  decision : SchedulerDecision
  prefillTokens : ℕ
  active : AList fun _ : ℕ => ActiveSequence
  cache : PagedKvCacheManager R
  events : List (ℕ × GenerationEvent)

namespace BatchScheduler

variable (s : BatchScheduler)

def new (maxBatchSize maxBatchTokens maxPrefillTokens : ℕ) (reservedBlocks : ℕ → ℕ) :
    BatchScheduler :=
  { prefillQueue := [], active := ∅, maxBatchSize, maxBatchTokens, maxPrefillTokens,
    reservedBlocks }

def enqueue (request : PendingRequest) : BatchScheduler :=
  { s with prefillQueue := s.prefillQueue ++ [request] }

/-- The batch has its greatest number of sequences. -/
def full (d : SchedulerDecision) : Prop := d.decodes.length + d.prefills.length ≥ s.maxBatchSize

instance (d : SchedulerDecision) : Decidable (s.full d) := inferInstanceAs (Decidable (_ ≥ _))

/-- Feed the last generated token back in. -/
def decodeJob (seqId : ℕ) (seq : ActiveSequence) : DecodeJob :=
  { seqId, tokenId := seq.generatedTokens.getLast?.getD 0,
    position := asU32 seq.currentPos, handle := seq.handle }

/-- Decodes of the fully prefilled sequences. -/
def addDecodes (closed : ℕ → Bool) : List ℕ → SchedulerDecision → SchedulerDecision
  | [], d => d
  | seqId :: rest, d =>
    if s.full d then d
    else if d.totalTokens ≥ s.maxBatchTokens then d
    else
      match s.active.lookup seqId with
      | none => addDecodes closed rest d
      | some seq =>
        -- A closed client is left to the cleanup after the iteration.
        if closed seqId then addDecodes closed rest d
        else addDecodes closed rest
          { d with decodes := d.decodes ++ [decodeJob seqId seq], totalTokens := d.totalTokens + 1 }

/-- Tokens the batch still has room for. -/
def batchCap (st : Building R) : ℕ := s.maxBatchTokens - st.decision.totalTokens

/-- Prompt tokens the batch still has room for. -/
def prefillCap (st : Building R) : ℕ := s.maxPrefillTokens - st.prefillTokens

/-- The next tokens of a prompt, at their positions. -/
def chunkJob (seqId : ℕ) (seq : ActiveSequence) (chunkSize : ℕ) : PrefillJob :=
  let chunk := seq.remainingPrefill.take chunkSize
  { seqId, tokenIds := chunk,
    positions := (List.range' seq.currentPos chunk.length).map asU32, handle := seq.handle }

/-- The sequence once a chunk of its prompt is in the batch. -/
def afterChunk (seq : ActiveSequence) (chunkSize : ℕ) : ActiveSequence :=
  { seq with
    remainingPrefill := seq.remainingPrefill.drop chunkSize
    currentPos := seq.currentPos + (seq.remainingPrefill.take chunkSize).length }

/-- A prefill job added to the batch. -/
def addPrefill (st : Building R) (job : PrefillJob) (chunkSize : ℕ) (seq : ActiveSequence) :
    Building R :=
  { st with
    decision := { st.decision with
      prefills := st.decision.prefills ++ [job]
      totalTokens := st.decision.totalTokens + chunkSize }
    prefillTokens := st.prefillTokens + chunkSize
    active := st.active.insert job.seqId seq }

/-- Next chunks of prompts already begun. -/
def addChunks : List ℕ → Building R → Building R
  | [], st => st
  | seqId :: rest, st =>
    if s.full st.decision then st
    else if s.batchCap st = 0 ∨ s.prefillCap st = 0 then st
    else
      match st.active.lookup seqId with
      | none => addChunks rest st
      | some seq =>
        let chunkSize := min (min seq.remainingPrefill.length (s.batchCap st)) (s.prefillCap st)
        addChunks rest 
          (addPrefill st (chunkJob seqId seq chunkSize) chunkSize (afterChunk seq chunkSize))

/-- The first tokens of a new request's prompt. -/
def firstJob (req : PendingRequest) (handle : CacheHandle) (chunkSize : ℕ) : PrefillJob :=
  let chunk := req.promptTokens.take chunkSize
  { seqId := req.seqId, tokenIds := chunk, positions := (List.range chunk.length).map asU32, handle }

variable (order : IterOrder) (closed : ℕ → Bool)

/-- A new request once it is running. -/
def activate (req : PendingRequest) (handle : CacheHandle) (chunkSize : ℕ) : ActiveSequence :=
  { seqId := req.seqId, handle, maxTokens := req.maxTokens, params := req.params,
    stopTokens := req.stopTokens, currentPos := chunkSize, generatedTokens := [],
    remainingPrefill := req.promptTokens.drop chunkSize }

/-- New requests from the front of the queue, as long as the blocks for
the whole prompt are among `available`. -/
def addRequests (available : ℕ) : List PendingRequest → Building R →
    List PendingRequest × Building R
  | [], st => ([], st)
  | req :: rest, st =>
    if s.full st.decision then (req :: rest, st)
    else if s.batchCap st = 0 ∨ s.prefillCap st = 0 then (req :: rest, st)
    else
      let promptLen := req.promptTokens.length
      let blocksNeeded := (promptLen + 15) / 16
      if blocksNeeded > available then (req :: rest, st)
      else
        match PagedKvCacheManager.alloc st.cache with
        | .error e cache =>
          let text := e.display
          addRequests available rest { st with
            cache
            events := st.events ++ [(req.seqId, .error s!"cache allocation failed: {text}")] }
        | .ok handle cache =>
          let chunkSize := min (min promptLen (s.batchCap st)) (s.prefillCap st)
          addRequests available rest (addPrefill { st with cache } (firstJob req handle chunkSize)
            chunkSize (activate req handle chunkSize))

/-- The running sequences, in the order of the map. -/
def values : List ActiveSequence :=
  (order.arrange s.active.keys).filterMap s.active.lookup

/-- Build the batch for this iteration. -/
def schedule (cache : PagedKvCacheManager R) :
    SchedulerDecision × BatchScheduler × PagedKvCacheManager R × List (ℕ × GenerationEvent) :=
  let reserved := s.reservedBlocks cache.pool.capacity
  let freeBlocks := cache.numFreeBlocks
  let decodeIds := ((s.values order).filter (·.remainingPrefill.isEmpty)).map (·.seqId)
  let decodes := s.addDecodes closed decodeIds { prefills := [], decodes := [], totalTokens := 0 }
  let chunkIds := ((s.values order).filter (!·.remainingPrefill.isEmpty)).map (·.seqId)
  let chunks := s.addChunks chunkIds
    { decision := decodes, prefillTokens := 0, active := s.active, cache, events := [] }
  let (queue, st) := s.addRequests (freeBlocks - reserved) s.prefillQueue chunks
  (st.decision, { s with prefillQueue := queue, active := st.active }, st.cache, st.events)

/-- Why a sequence is finished, if it is. -/
def finished (seq : ActiveSequence) : Option StopReason :=
  if seq.generatedTokens.length ≥ seq.maxTokens then some .length
  else
    match seq.generatedTokens.getLast? with
    | some last => if last ∈ seq.stopTokens then some .stop else none
    | none => none

/-- The sequences to remove, and the event each finished one is sent. -/
def completed :
    List (ℕ × CacheHandle × Option GenerationEvent) :=
  (order.arrange s.active.keys).filterMap fun seqId =>
    (s.active.lookup seqId).bind fun seq =>
      match finished seq with
      | some reason => some (seqId, seq.handle, some (.finished reason seq.generatedTokens.length))
      | none => if closed seqId then some (seqId, seq.handle, none) else none

/-- Remove completed or disconnected sequences; the result has the cache
handles to free. -/
def cleanupCompleted :
    List (ℕ × CacheHandle) × BatchScheduler × List (ℕ × GenerationEvent) :=
  let toRemove := s.completed order closed
  (toRemove.map fun r => (r.1, r.2.1),
    { s with active := toRemove.foldl (fun active r => active.erase r.1) s.active },
    toRemove.filterMap fun r => r.2.2.map fun event => (r.1, event))

end BatchScheduler

end Fracture
