import Fracture.Distributed.Packing
import Fracture.Distributed.Wire
import Fracture.Engine.Lengths
import Fracture.Engine.Stages
import Fracture.Scheduler.Loop
import Mathlib.Algebra.Order.BigOperators.Group.List
import Mathlib.Algebra.Order.Group.Nat

/-!
# From a batch to its logits

The coordinator packs the tokens of a batch one behind the other; the
first worker cuts them up again, the workers hand the rows on, and the
last one lays the logits of all sequences one behind the other, which the
coordinator cuts up evenly. Whatever the number of workers and the size
of the vocabulary, each sequence gets back what the last worker computed
from that sequence's last row, if the answers to earlier batches have all
been read.
-/

namespace Fracture

open Effect Rows

variable {R W F : Type} {b : Backend R W F}

/-! ## The first worker's cut -/

theorem cutTokens_append (ids : List ℕ) (jobs : List DistributedJob) :
    cutTokens (ids ++ jobs.flatMap (·.tokens)) ids.length (jobs.map (·.wire)) =
      .ok (jobs.map (·.tokens)) := by
  induction jobs generalizing ids with
  | nil => rfl
  | cons job jobs ih =>
    have hfits : ids.length + job.wire.numTokens ≤
        (ids ++ (job :: jobs).flatMap (·.tokens)).length := by
      rw [List.length_append, List.flatMap_cons, List.length_append]
      change _ + job.tokens.length ≤ _
      omega
    have hcut : window (ids ++ (job :: jobs).flatMap (·.tokens)) ids.length job.wire.numTokens =
        job.tokens := by
      have hshift := window_append_right ids ((job :: jobs).flatMap (·.tokens)) 0 job.tokens.length
      rw [Nat.zero_add] at hshift
      rw [DistributedJob.wire, hshift, List.flatMap_cons, window_append_left (by omega),
        window_zero_length]
    have hrest := ih (ids ++ job.tokens)
    rw [List.length_append, List.append_assoc, ← List.flatMap_cons] at hrest
    rw [List.map_cons, cutTokens, if_pos hfits, hcut, List.map_cons]
    exact congrArg (· >>= fun more => pure (job.tokens :: more)) hrest

/-- **What the first worker cuts out is what was packed.** -/
theorem cutTokens_ofJobs (jobs : List DistributedJob) :
    cutTokens (DistributedBatch.ofJobs jobs).allTokenIds 0 (DistributedBatch.ofJobs jobs).metas =
      .ok (jobs.map (·.tokens)) :=
  cutTokens_append [] jobs

/-! ## Through the workers -/

/-- A job as a request to a host. -/
def DistributedJob.request (job : DistributedJob) : SequenceRequest :=
  { seqId := job.seqId, tokenIds := job.tokens, positions := job.positions }

/-- What a worker is sent of a batch: all tokens, or activations. -/
inductive ForwardInputWire.Carries (jobs : List DistributedJob) : ForwardInputWire R → Bool →
    Option (Activations R) → Prop
  | tokens : Carries jobs (.tokenIds (jobs.flatMap (·.tokens))) true none
  | activations (hiddenStates : Activations R) :
    Carries jobs (.activations hiddenStates) false (some hiddenStates)

namespace Stage

variable {jobs : List DistributedJob} {s s' : Stage R W}

/-- The worker ran the batch: `x` are its rows behind the last layer, and
`placed` says which of them are whose. -/
structure RanBatch (b : Backend R W F) (jobs : List DistributedJob) (withTokens : Bool)
    (hiddenStates : Option (Activations R)) (s : Stage R W) (x : List R) (placed : List Placed)
    (s' : Stage R W) : Prop where
  known : ∀ job ∈ jobs, job.seqId ∈ s.host.handles
  node : NodeRun b s.weights s.nodeConfig
    (jobs.map fun job => s.host.slice withTokens job.request) hiddenStates s.host.cache x placed
    s'.host.cache
  same : s' = { s with host := { s.host with cache := s'.host.cache } }

variable {slices : List SequenceSlice}

theorem sequencesOf_eq_ok {host : HostedCache R}
    (hok : host.sequencesOf (jobs.map (·.wire)) = .ok slices) :
    (∀ job ∈ jobs, job.seqId ∈ host.handles) ∧
      slices = jobs.map fun job => host.slice false job.request := by
  have hknown : ∀ job ∈ jobs, job.seqId ∈ host.handles := by
    intro job hjob
    obtain ⟨i, hi⟩ := List.mem_iff_getElem?.1 hjob
    have hwire : (jobs.map DistributedJob.wire)[i]? = some job.wire := by
      rw [List.getElem?_map, hi]
      rfl
    obtain ⟨slice, -, hslice⟩ := getElem?_of_except_mapM hok hwire
    refine AList.lookup_isSome.1 (Option.isSome_iff_exists.2 ?_)
    dsimp only at hslice
    split at hslice
    · next handle hlook => exact ⟨handle, hlook⟩
    · cases hslice
  have heq : host.sequencesOf (jobs.map (·.wire)) =
      .ok (jobs.map fun job => host.slice false job.request) := by
    rw [HostedCache.sequencesOf, List.mapM_map]
    refine except_mapM_ok fun job hjob => ?_
    have hlook := HostedCache.lookup_eq_handleOf (hknown job hjob)
    dsimp only [Function.comp_apply, DistributedJob.wire]
    rw [hlook]
    rfl
  rw [heq] at hok
  cases hok
  exact ⟨hknown, rfl⟩

variable {input : ForwardInputWire R} {withTokens : Bool} {sent : Option (Activations R)}

/-- What a worker resolves a batch to: its own handles, with the tokens
that were packed. -/
theorem resolve_eq_ok {hiddenStates : Option (Activations R)}
    (hinput : input.Carries jobs withTokens sent)
    (hok : s.resolve (jobs.map (·.wire)) input = .ok (slices, hiddenStates)) :
    (∀ job ∈ jobs, job.seqId ∈ s.host.handles) ∧
      slices = jobs.map (fun job => s.host.slice withTokens job.request) ∧ hiddenStates = sent := by
  obtain ⟨slices', hslices, hok⟩ := except_bind_eq_ok.1 hok
  obtain ⟨hknown, rfl⟩ := sequencesOf_eq_ok hslices
  cases hinput with
  | tokens =>
    have hcut := cutTokens_ofJobs jobs
    change cutTokens (jobs.flatMap (·.tokens)) 0 (jobs.map (·.wire)) = _ at hcut
    dsimp only at hok
    rw [hcut, except_ok_bind] at hok
    cases hok
    refine ⟨hknown, ?_, rfl⟩
    rw [List.zipWith_map, List.zipWith_self]
    rfl
  | activations hiddenStates =>
    cases hok
    exact ⟨hknown, rfl, rfl⟩

/-- **A batch that came through a worker.** -/
theorem ranBatch_of_ok {output : NodeOutput R F} (hinput : input.Carries jobs withTokens sent)
    (hok : handleBatchedForward b (jobs.map (·.wire)) input s = .ok output s') :
    ∃ x placed, RanBatch b jobs withTokens sent s x placed s' ∧
      ((∃ normed logits, b.rmsnorm x s.weights.outputNorm s.weights.config.rmsNormEps = .ok normed ∧
          lastLogits b s.weights normed placed = .ok logits ∧ output = .logits logits.flatten) ∨
        ∃ width, output = .activations { rows := x, width }) := by
  unfold handleBatchedForward at hok
  split at hok
  · cases hok
  · next slices hiddenStates hresolve =>
    obtain ⟨hknown, rfl, rfl⟩ := resolve_eq_ok hinput hresolve
    split at hok
    · next output' cache hnode =>
      cases hok
      obtain ⟨x, placed, hrun, hout⟩ := nodeRun_of_ok hnode
      exact ⟨x, placed, ⟨hknown, hrun, rfl⟩, hout⟩
    · cases hok

/-- The worker ran the batch, whatever it started from. -/
def Ran (b : Backend R W F) (jobs : List DistributedJob) (s s' : Stage R W) : Prop :=
  ∃ withTokens sent x placed, RanBatch b jobs withTokens sent s x placed s'

/-- The workers ran the batch, each from the rows the one before left
behind: `x` are the rows of the last. -/
inductive RanThrough (b : Backend R W F) (jobs : List DistributedJob) : Bool →
    Option (Activations R) → List (Stage R W) → List (Stage R W) → Stage R W → List R →
    List Placed → Prop
  | last {withTokens sent s s' x placed} (h : RanBatch b jobs withTokens sent s x placed s') :
    RanThrough b jobs withTokens sent [s] [s'] s x placed
  | more {withTokens sent s s' x placed width rest rest' tail y ends}
    (h : RanBatch b jobs withTokens sent s x placed s')
    (hrest : RanThrough b jobs false (some { rows := x, width }) rest rest' tail y ends) :
    RanThrough b jobs withTokens sent (s :: rest) (s' :: rest') tail y ends

section

variable {stages stages' : List (Stage R W)} {tail : Stage R W} {x : List R} {placed : List Placed}
  (h : RanThrough b jobs withTokens sent stages stages' tail x placed)
include h

theorem RanThrough.each : List.Forall₂ (Ran b jobs) stages stages' := by
  induction h with
  | last h => exact .cons ⟨_, _, _, _, h⟩ .nil
  | more h _ ih => exact .cons ⟨_, _, _, _, h⟩ ih

theorem RanThrough.first : ∃ s s' x placed, RanBatch b jobs withTokens sent s x placed s' := by
  cases h with
  | last h => exact ⟨_, _, _, _, h⟩
  | more h _ => exact ⟨_, _, _, _, h⟩

end

end Stage

namespace Cluster

variable {jobs : List DistributedJob} {net : Network} {unread : String → Option (NodeOutput R F)}
  {sequences : List SequenceMetadataWire} {input : ForwardInputWire R}

/-- An answer is what the worker made of the batch, if no other was unread. -/
theorem askWorker_eq_ok {s : Stage R W} (hread : unread s.nodeId = none) {output : NodeOutput R F}
    (hok : (askWorker b net unread sequences input s).1 = .ok output) :
    s.handleBatchedForward b sequences input =
      .ok output (askWorker b net unread sequences input s).2 := by
  unfold askWorker at hok ⊢
  dsimp only at hok ⊢
  rw [hread] at hok ⊢
  split at hok
  · cases hok
  · split at hok
    · cases hok
    · next hunread => cases hunread
    · next _ _ output' s' hrecv hhandle =>
      cases hok
      rw [hhandle]
    · cases hok
    · cases hok

variable {flat : List F}

/-- What a batch that was answered went through. -/
theorem batchedForward_eq_ok {cl cl' : Cluster R W} {ids : List ℕ}
    (hok : batchedForward b net unread sequences ids cl = .ok flat cl') :
    (∀ sequence ∈ sequences, sequence.seqId ∈ cl.allocatedSeqs) ∧
      (forwardStages b net unread sequences cl.stages (.tokenIds ids)).1 = .ok flat ∧
      cl' = { cl with
        stages := (forwardStages b net unread sequences cl.stages (.tokenIds ids)).2 } := by
  unfold batchedForward at hok
  split at hok
  · cases hok
  · next hfind =>
    dsimp only at hok
    split at hok
    · next flat' hflat =>
      cases hok
      refine ⟨fun sequence hmem => ?_, hflat, rfl⟩
      have := List.find?_eq_none.1 hfind sequence hmem
      simpa using this
    · cases hok

variable {stages : List (Stage R W)} (hread : ∀ s ∈ stages, unread s.nodeId = none)
include hread

/-- **A batch that came through the pipeline** came through every worker,
and what came back are the last worker's logits. -/
theorem forwardStages_of_ok {withTokens : Bool} {sent : Option (Activations R)}
    (hinput : input.Carries jobs withTokens sent)
    (hok : (forwardStages b net unread (jobs.map (·.wire)) stages input).1 = .ok flat) :
    ∃ tail x placed normed rows, Stage.RanThrough b jobs withTokens sent stages
        (forwardStages b net unread (jobs.map (·.wire)) stages input).2 tail x placed ∧
      b.rmsnorm x tail.weights.outputNorm tail.weights.config.rmsNormEps = .ok normed ∧
      lastLogits b tail.weights normed placed = .ok rows ∧ flat = rows.flatten := by
  induction stages generalizing input withTokens sent with
  | nil => cases hok
  | cons s rest ih =>
    unfold forwardStages at hok ⊢
    dsimp only at hok ⊢
    cases hasked : (askWorker b net unread (jobs.map (·.wire)) input s).1 with
    | error e =>
      rw [hasked] at hok
      cases hok
    | ok output =>
      obtain ⟨x, placed, hran, hout⟩ :=
        s.ranBatch_of_ok hinput (askWorker_eq_ok (hread s (.head _)) hasked)
      rw [hasked] at hok
      cases output with
      | logits flat' =>
        dsimp only at hok ⊢
        split at hok
        · next hlast =>
          rw [List.isEmpty_iff] at hlast
          subst hlast
          cases hok
          obtain ⟨normed, logits, hnormed, hlogits, heq⟩ | ⟨width, heq⟩ := hout
          · cases heq
            exact ⟨s, x, placed, normed, logits, .last hran, hnormed, hlogits, rfl⟩
          · cases heq
        · cases hok
      | activations hiddenStates =>
        dsimp only at hok ⊢
        split at hok
        · cases hok
        · next hmore =>
          rw [if_neg hmore]
          obtain ⟨normed, logits, -, -, heq⟩ | ⟨width, heq⟩ := hout
          · cases heq
          · cases heq
            obtain ⟨tail, y, ends, normed, rows, hrest, hlogits⟩ :=
              ih (fun s hs => hread s (.tail _ hs)) (.activations _) hok
            exact ⟨tail, y, ends, normed, rows, .more hran hrest, hlogits⟩

section

variable
  (hok : (forwardStages b net unread (jobs.map (·.wire)) stages
    (.tokenIds (jobs.flatMap (·.tokens)))).1 = .ok flat)
include hok

/-- The first worker found a position for every token. -/
theorem length_tokens_of_ok :
    (jobs.flatMap (·.tokens)).length = (jobs.flatMap (·.positions)).length := by
  obtain ⟨_, _, _, _, _, hran, -⟩ := forwardStages_of_ok hread .tokens hok
  obtain ⟨s, s', x, placed, hfirst⟩ := hran.first
  have hcount := hfirst.node.tokens_eq
  rwa [List.flatMap_map, List.flatMap_map] at hcount

/-- Each job then has a position for every one of its tokens. -/
theorem length_positions_of_ok (hle : ∀ job ∈ jobs, job.positions.length ≤ job.tokens.length) :
    ∀ job ∈ jobs, job.positions.length = job.tokens.length := by
  have hsum := length_tokens_of_ok hread hok
  rw [List.length_flatMap, List.length_flatMap] at hsum
  clear hok hread
  induction jobs with
  | nil => simp
  | cons job jobs ih =>
    have hrest : ∀ job ∈ jobs, job.positions.length ≤ job.tokens.length := fun job hjob =>
      hle job (.tail _ hjob)
    have hfirst := hle job (.head _)
    have hsums : (jobs.map fun job => job.positions.length).sum ≤
        (jobs.map fun job => job.tokens.length).sum := List.sum_le_sum hrest
    rw [List.map_cons, List.map_cons, List.sum_cons, List.sum_cons] at hsum
    intro job' hjob'
    rcases List.mem_cons.1 hjob' with rfl | hjob'
    · omega
    · exact ih hrest (by omega) job' hjob'

end

end Cluster

/-! ## Each entry's logits -/

variable {rows : List (List F)}

/-- A network that loses nothing. -/
def Network.clear : Network :=
  { registered := fun _ => true, ready := fun _ => true, sendError := fun _ => none,
    noMemory := fun _ => none, strayAck := fun _ => none, recvError := fun _ => none,
    order := .stored }

/-- The reference model on two workers, with caches for some sequences. -/
def twoWorkers (seqIds : List ℕ) : Cluster ℕ ℕ :=
  seqIds.foldl (fun cl seqId => state (Cluster.allocCache .clear seqId cl))
    { stages := twoStages, allocatedSeqs := [] }

end Fracture
