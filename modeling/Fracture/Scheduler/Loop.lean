import Fracture.Common.Runs
import Fracture.Engine.Batched
import Fracture.Engine.Node
import Fracture.Scheduler.Model

/-!
# The serving loop

One turn of the loop takes the requests that have come in, asks the
scheduler for a batch, runs it, samples a token for every sequence whose
prompt is through, and removes what is finished. What the outside decides
is in `Turn`: the requests, the orders of the hash map, which clients are
gone, and the draws of the sampler.

The cache is behind a lock. A forward pass that panics does so while it
holds the lock, and the loop goes down when it next takes it: `poisoned`.
A turn of a loop with no work is the wait for the next command.
-/

namespace Fracture

open Effect

variable {R W F : Type}

/-- What the outside decides in one turn. -/
structure Turn (F : Type) where
  /-- Requests handled before the batch is built. -/
  submitted : List PendingRequest
  order : IterOrder
  /-- Clients that are gone when the batch is built. -/
  closed : ℕ → Bool
  /-- The draw for each sequence, from its logits. -/
  sample : ℕ → List F → SamplingParams → Except FractureError ℕ
  cleanupOrder : IterOrder
  /-- Clients that are gone at the cleanup. -/
  cleanupClosed : ℕ → Bool

/-- The order of the stored keys. -/
def IterOrder.stored : IterOrder := ⟨fun keys => keys, fun _ => .rfl⟩

/-- A turn in which every client stays and every draw is the same token. -/
def Turn.quiet (submitted : List PendingRequest) (token : ℕ) : Turn F :=
  { submitted, order := .stored, closed := fun _ => false, sample := fun _ _ _ => .ok token,
    cleanupOrder := .stored, cleanupClosed := fun _ => false }

/-- A slice of the batch and the sequence it is for. -/
structure BatchEntry where
  seqId : ℕ
  isPrefill : Bool
  slice : SequenceSlice
  deriving DecidableEq

/-- How the forward pass of a turn ended. -/
inductive ForwardResult (F : Type)
  | notRun
  | logits (rows : List (List F))
  | failed (e : FractureError)
  | panicked
  deriving DecidableEq

/-- What can be seen of a turn. -/
structure TurnLog (F : Type) where
  submitted : List PendingRequest
  decision : SchedulerDecision
  batch : List BatchEntry
  result : ForwardResult F
  /-- The tokens drawn, with their sequences. -/
  sampled : List (ℕ × ℕ)
  deriving DecidableEq

structure LoopState (R : Type) where
  scheduler : BatchScheduler
  cache : PagedKvCacheManager R
  /-- Every event sent so far, with the sequence it was sent for. -/
  events : List (ℕ × GenerationEvent)
  poisoned : Bool

/-- The slices of a decision: prefills, then decodes. -/
def batchEntries (s : BatchScheduler) (d : SchedulerDecision) : List BatchEntry :=
  (d.prefills.filterMap fun pf => (s.active.lookup pf.seqId).map fun seq =>
    { seqId := pf.seqId, isPrefill := true, slice := ⟨seq.handle, pf.tokenIds, pf.positions⟩ }) ++
  (d.decodes.filterMap fun dj => (s.active.lookup dj.seqId).map fun seq =>
    { seqId := dj.seqId, isPrefill := false,
      slice := ⟨seq.handle, [dj.tokenId], [dj.position]⟩ })

/-- A draw added to its sequence. -/
def pushToken (seq : ActiveSequence) (token : ℕ) : ActiveSequence :=
  { seq with
    generatedTokens := seq.generatedTokens ++ [token]
    currentPos := seq.currentPos + 1 }

/-- The sampling loop's variables. -/
structure Sampling where
  active : AList fun _ : ℕ => ActiveSequence
  events : List (ℕ × GenerationEvent)
  sampled : List (ℕ × ℕ)

/-- Sample for one slice and stream the token. -/
def sampleEntry (sample : ℕ → List F → SamplingParams → Except FractureError ℕ) (st : Sampling)
    (entry : BatchEntry) (logits : List F) : Sampling :=
  match st.active.lookup entry.seqId with
  | none => st
  | some seq =>
    -- A prompt that is not through yet has no token to draw.
    if entry.isPrefill && !seq.remainingPrefill.isEmpty then st
    else
      match sample entry.seqId logits seq.params with
      | .ok token =>
        { active := st.active.insert entry.seqId (pushToken seq token)
          events := if token ∈ seq.stopTokens then st.events
            else st.events ++ [(entry.seqId, .token token)]
          sampled := st.sampled ++ [(entry.seqId, token)] }
      | .error e =>
        let text := e.display
        -- A limit of 0 leaves the sequence to the cleanup.
        { st with
          active := st.active.insert entry.seqId { seq with maxTokens := 0 }
          events := st.events ++ [(entry.seqId, .error s!"sampling failed: {text}")] }

/-- Sample for every slice of the batch. -/
def sampleAll (sample : ℕ → List F → SamplingParams → Except FractureError ℕ) (st : Sampling)
    (entries : List BatchEntry) (logits : List (List F)) : Sampling :=
  (entries.zip logits).foldl (fun st p => sampleEntry sample st p.1 p.2) st

/-- Free a sequence's cache; an error is ignored. -/
def release (cache : PagedKvCacheManager R) (handle : CacheHandle) : PagedKvCacheManager R :=
  state (PagedKvCacheManager.free handle cache)

/-- End a sequence of a batch whose forward pass failed. -/
def abortEntry (e : FractureError) (st : LoopState R) (entry : BatchEntry) : LoopState R :=
  match st.scheduler.active.lookup entry.seqId with
  | none => st
  | some seq =>
    let text := e.display
    { st with
      scheduler := { st.scheduler with active := st.scheduler.active.erase entry.seqId }
      cache := release st.cache seq.handle
      events := st.events ++ [(entry.seqId, .error s!"forward pass failed: {text}")] }

/-- Sample, and clean up what is finished. -/
def finishTurn (t : Turn F) (entries : List BatchEntry) (logits : List (List F))
    (st : LoopState R) : List (ℕ × ℕ) × LoopState R :=
  let sampling := sampleAll t.sample
    { active := st.scheduler.active, events := st.events, sampled := [] } entries logits
  let (completed, scheduler, events) :=
    { st.scheduler with active := sampling.active : BatchScheduler }.cleanupCompleted
      t.cleanupOrder t.cleanupClosed
  (sampling.sampled,
    { st with
      scheduler
      cache := completed.foldl (fun cache r => release cache r.2) st.cache
      events := sampling.events ++ events })

/-- Run a batch. -/
def runBatch (e : Engine R W F) (t : Turn F) (entries : List BatchEntry) (st : LoopState R) :
    ForwardResult F × List (ℕ × ℕ) × LoopState R :=
  match batchedForward e.backend e.weights e.layerRange (entries.map (·.slice)) st.cache with
  | .ok logits cache =>
    let (sampled, st) := finishTurn t entries logits { st with cache }
    (.logits logits, sampled, st)
  | .error (.error err) cache =>
    (.failed err, [], entries.foldl (abortEntry err) { st with cache })
  | .error (.panicked _) cache => (.panicked, [], { st with cache, poisoned := true })

/-- The state once the batch is built, and the decision. -/
def LoopState.schedule (t : Turn F) (st : LoopState R) : SchedulerDecision × LoopState R :=
  let (decision, scheduler, cache, events) :=
    (t.submitted.foldl BatchScheduler.enqueue st.scheduler).schedule t.order t.closed st.cache
  (decision, { st with scheduler, cache, events := st.events ++ events })

/-- One turn of the loop. -/
def LoopState.turn (e : Engine R W F) (t : Turn F) (st : LoopState R) :
    TurnLog F × LoopState R :=
  let idle : SchedulerDecision := { prefills := [], decodes := [], totalTokens := 0 }
  if st.poisoned then
    ({ submitted := t.submitted, decision := idle, batch := [], result := .notRun,
       sampled := [] }, st)
  else
    let (decision, st) := st.schedule t
    let entries := batchEntries st.scheduler decision
    if decision.totalTokens = 0 ∨ entries = [] then
      ({ submitted := t.submitted, decision, batch := [], result := .notRun, sampled := [] }, st)
    else
      let (result, sampled, st) := runBatch e t entries st
      ({ submitted := t.submitted, decision, batch := entries, result, sampled }, st)

/-- A run of the loop up to some turn. -/
structure Trace (R F : Type) where
  logs : List (TurnLog F)
  state : LoopState R

namespace Trace

variable (e : Engine R W F) (scheduler : BatchScheduler) (cache : PagedKvCacheManager R)

/-- The run before its first turn. -/
def start : Trace R F :=
  { logs := [], state := { scheduler, cache, events := [], poisoned := false } }

/-- One more turn. -/
def next (tr : Trace R F) (t : Turn F) : Trace R F :=
  let (log, st) := tr.state.turn e t
  { logs := tr.logs ++ [log], state := st }

/-- A run of the loop from its start. -/
def serve (turns : List (Turn F)) : Trace R F :=
  Runs.run (next e) (start scheduler cache) turns

end Trace

end Fracture
