import Fracture.Registry.Rebalance

/-!
# What a successful rebalance means

A rebalance returns a pipeline whether or not its workers have taken the
`Reconfigure`, and it leaves a worker that is not scheduled as it was. So
the pipeline's workers are ready when each connection delivers the answer
and nothing else; and the registry describes the pipeline when no worker
outside the schedule was serving before.
-/

namespace Fracture

open Effect Layers

variable {F : Type}

/-! ## The ranges of a pipeline -/

theorem Layers.pairwise_start_of_checkRanges {as : List (LayerAssignment F)} {start total : ℕ}
    (h : checkRanges start as = .ok total) :
    (as.Pairwise fun a b => a.layerRange.start < b.layerRange.start) ∧
      ∀ a ∈ as, start ≤ a.layerRange.start := by
  induction as generalizing start with
  | nil => exact ⟨.nil, fun a ha => by cases ha⟩
  | cons a as ih =>
    unfold checkRanges at h
    dsimp only at h
    split at h
    · cases h
    · next hstart =>
      split at h
      · cases h
      · next hstop =>
        obtain ⟨hpair, hle⟩ := ih h
        have heq : a.layerRange.start = start := not_not.1 hstart
        refine ⟨List.pairwise_cons.2 ⟨fun b hb => ?_, hpair⟩, fun b hb => ?_⟩
        · have := hle b hb
          omega
        · rcases List.mem_cons.1 hb with rfl | hb
          · omega
          · have := hle b hb
            omega

theorem DistributedPipeline.new_eq_ok {as : List (LayerAssignment F)} {hiddenSize : ℕ}
    {p : DistributedPipeline} (h : DistributedPipeline.new as hiddenSize = .ok p) :
    p.pipelineOrder = as.map (·.nodeId) ∧
      as.Pairwise fun a b => a.layerRange.start < b.layerRange.start := by
  unfold DistributedPipeline.new at h
  split at h
  · cases h
  · obtain ⟨total, htotal, h⟩ := except_bind_eq_ok.1 h
    cases h
    exact ⟨rfl, (pairwise_start_of_checkRanges htotal).1⟩

namespace PeerRegistry

variable {f : F32 F} {links : String → Link} {modelConfig : ModelConfig}
  {schedulingMode : SchedulingMode} {maxSeqLen : ℕ} {skipNodeIds : List String}
  {reg reg' : PeerRegistry F} {res : RebalanceResult F}

/-- A rebalance that succeeded, as the rest of the file reads it. -/
structure Rebalanced (f : F32 F) (links : String → Link) (input : SchedulerInput F)
    (reg : PeerRegistry F) (res : RebalanceResult F) (reg' : PeerRegistry F) : Prop where
  distinct : (res.assignments.map (·.nodeId)).Nodup
  scheduled : res.assignments.map (·.nodeId) = scheduledIds f input
  order : res.pipeline.pipelineOrder = res.assignments.map (·.nodeId)
  ascending : res.assignments.Pairwise fun a b => a.layerRange.start < b.layerRange.start
  known : ∀ a ∈ res.assignments, ∃ e ∈ reg.workers, e.nodeId = a.nodeId
  workers : reg'.workers = reg.workers.map (settle links res.assignments)

theorem rebalanced_of_ok
    (h : forcedRebalance f links modelConfig schedulingMode maxSeqLen skipNodeIds reg = .ok res reg') :
    Rebalanced f links (reg.rebalanceInput f modelConfig schedulingMode maxSeqLen skipNodeIds)
      reg res reg' := by
  obtain ⟨r, hschedule, hres, hpipeline, hnodup, hworkers⟩ := forcedRebalance_eq_ok h
  obtain ⟨horder, hascending⟩ := DistributedPipeline.new_eq_ok hpipeline
  refine ⟨hnodup, hres ▸ map_nodeId_of_schedule hschedule, horder, hascending, ?_, hworkers⟩
  -- a scheduled worker is a candidate, and a candidate has an entry
  intro a ha
  obtain ⟨cs, counts, hplan⟩ := exists_planned hschedule
  have hid : a.nodeId ∈ cs.map (·.nodeId) := by
    rw [← hplan.map_nodeId, ← hres]
    exact List.mem_map_of_mem ha
  obtain ⟨w, hw, hwid⟩ := List.mem_map.1 hid
  have hcand : w ∈ reg.allCapabilities := (List.mem_filter.1 (hplan.known w hw)).1
  obtain ⟨e, he, rfl⟩ := List.mem_map.1 hcand
  exact ⟨e, (List.mem_filter.1 he).1, hwid⟩

namespace Rebalanced

variable {input : SchedulerInput F} {a : LayerAssignment F}
  (h : Rebalanced f links input reg res reg') (ha : a ∈ res.assignments)
include h ha

/-- The entry of a scheduled worker afterwards. -/
theorem get_of_mem :
    ∃ e, reg'.get a.nodeId = some e ∧ e.assignment = some a ∧
      e.status = if (links a.nodeId).sendError.isNone then .ready else .dead := by
  obtain ⟨e, he, hid⟩ := h.known a ha
  refine ⟨assigned links a e, get_eq_some.2 ⟨?_, hid⟩, rfl, rfl⟩
  rw [h.workers, ← settle_of_mem h.distinct ha hid]
  exact List.mem_map_of_mem he

theorem status_of_mem :
    reg'.status a.nodeId = some .ready ↔ (links a.nodeId).sendError = none := by
  obtain ⟨e, hget, -, hstatus⟩ := h.get_of_mem ha
  rw [status, hget, Option.map_some, hstatus]
  cases (links a.nodeId).sendError with
  | none => simp
  | some err => simp

/-- What was read from a scheduled worker. -/
theorem mem_awaitReady {frame : Except FractureError (MessageType × Bool)} :
    (a.nodeId, frame) ∈ awaitReady links res.assignments reg' ↔
      (links a.nodeId).received = frame := by
  obtain ⟨e, hget, -⟩ := h.get_of_mem ha
  unfold awaitReady
  rw [List.mem_filterMap]
  constructor
  · rintro ⟨b, -, hb⟩
    obtain ⟨e', -, heq⟩ := Option.map_eq_some_iff.1 hb
    obtain ⟨hid, hframe⟩ := Prod.mk.inj heq
    rw [← hid]
    exact hframe
  · rintro rfl
    exact ⟨a, ha, by rw [hget]; rfl⟩

end Rebalanced

/-- Workers that are there, looked up one after the other. -/
theorem map_nodeId_filterMap_get {as : List (LayerAssignment F)}
    (hall : ∀ a ∈ as, ∃ e, reg.get a.nodeId = some e) :
    (as.filterMap fun a => reg.get a.nodeId).map (·.nodeId) = as.map (·.nodeId) := by
  induction as with
  | nil => rfl
  | cons a as ih =>
    obtain ⟨e, hget⟩ := hall a List.mem_cons_self
    rw [List.filterMap_cons, hget, List.map_cons, List.map_cons, (get_eq_some.1 hget).2,
      ih (List.forall_mem_cons.1 hall).2]

namespace Rebalanced

variable {input : SchedulerInput F}

/-- The entries of the scheduled workers, in the order of the schedule. -/
def entries (reg' : PeerRegistry F) (res : RebalanceResult F) : List (WorkerEntry F) :=
  res.assignments.filterMap fun a => reg'.get a.nodeId

variable (h : Rebalanced f links input reg res reg')
include h

theorem map_nodeId_entries :
    (entries reg' res).map (·.nodeId) = res.assignments.map (·.nodeId) :=
  map_nodeId_filterMap_get fun _ ha => (h.get_of_mem ha).imp fun _ he => he.1

/-- An entry of the schedule starts where its range starts. -/
theorem start_of_get {a : LayerAssignment F} (ha : a ∈ res.assignments) {e : WorkerEntry F}
    (hget : reg'.get a.nodeId = some e) : e.start = a.layerRange.start := by
  obtain ⟨e', hget', hassign, -⟩ := h.get_of_mem ha
  obtain rfl : e' = e := Option.some_inj.1 (hget'.symm.trans hget)
  rw [WorkerEntry.start, hassign]
  rfl

variable (hsend : ∀ a ∈ res.assignments, (links a.nodeId).sendError = none)
include hsend

/-- Without failed sends, those serve afterwards that are scheduled or served
before. -/
theorem mem_serving {e : WorkerEntry F} :
    e ∈ reg'.serving ↔ (∃ a ∈ res.assignments, reg'.get a.nodeId = some e) ∨
      e ∈ reg.serving ∧ e.nodeId ∉ res.assignments.map (·.nodeId) := by
  unfold serving
  rw [List.mem_filter, h.workers, List.mem_filter]
  constructor
  · rintro ⟨hmem, hserves⟩
    obtain ⟨e₀, he₀, rfl⟩ := List.mem_map.1 hmem
    by_cases hin : e₀.nodeId ∈ res.assignments.map (·.nodeId)
    · obtain ⟨a, ha, hid⟩ := List.mem_map.1 hin
      refine .inl ⟨a, ha, get_eq_some.2 ⟨?_, ?_⟩⟩
      · rw [h.workers]
        exact hmem
      · rw [nodeId_settle]
        exact hid.symm
    · rw [settle_of_notMem hin] at hserves ⊢
      exact .inr ⟨⟨he₀, hserves⟩, hin⟩
  · rintro (⟨a, ha, hget⟩ | ⟨⟨hmem, hserves⟩, hout⟩)
    · obtain ⟨e', hget', hassign, hstatus⟩ := h.get_of_mem ha
      obtain rfl : e' = e := Option.some_inj.1 (hget'.symm.trans hget)
      rw [hsend a ha] at hstatus
      refine ⟨h.workers ▸ (get_eq_some.1 hget).1, ?_⟩
      simp [WorkerEntry.serves, hassign, hstatus]
    · exact ⟨List.mem_map.2 ⟨e, hmem, settle_of_notMem hout⟩, hserves⟩

variable (hall : ∀ e ∈ reg.serving, e.nodeId ∈ res.assignments.map (·.nodeId))
include hall

/-- **The registry describes the pipeline** when nobody outside the schedule
was serving. -/
theorem serving_perm : reg'.serving.Perm (entries reg' res) := by
  have hentries : (entries reg' res).Nodup := by
    refine List.Nodup.of_map (·.nodeId) ?_
    rw [h.map_nodeId_entries]
    exact h.distinct
  have hserving : reg'.serving.Nodup :=
    (List.Nodup.of_map _ reg'.distinct).sublist List.filter_sublist
  refine (List.perm_ext_iff_of_nodup hserving hentries).2 fun e => ?_
  rw [h.mem_serving hsend, entries, List.mem_filterMap]
  refine or_iff_left fun hstale => ?_
  exact hstale.2 (hall e hstale.1)

/-- The registry's order is the order of the schedule. -/
theorem pipelineOrder_eq : reg'.pipelineOrder = res.assignments.map (·.nodeId) := by
  have hperm := h.serving_perm hsend hall
  have hsorted : (entries reg' res).Pairwise fun a b => a.start ≤ b.start := by
    unfold entries
    refine List.pairwise_filterMap.2 (h.ascending.imp_of_mem fun ha hb hlt e he e' he' => ?_)
    rw [h.start_of_get ha he, h.start_of_get hb he']
    exact Nat.le_of_lt hlt
  have heq : reg'.serving.insertionSort (fun a b => a.start ≤ b.start) = entries reg' res := by
    refine List.Perm.eq_of_pairwise (fun e e' he he' hle hge => ?_)
      (List.pairwise_insertionSort _ _) hsorted ((List.perm_insertionSort _ _).trans hperm)
    -- two scheduled workers do not start at one layer
    have hin : e ∈ entries reg' res :=
      hperm.mem_iff.1 ((List.mem_insertionSort _).1 he)
    obtain ⟨a, ha, hget⟩ := List.mem_filterMap.1 hin
    obtain ⟨a', ha', hget'⟩ := List.mem_filterMap.1 he'
    rw [h.start_of_get ha hget, h.start_of_get ha' hget'] at hle hge
    have hstarts : (res.assignments.map fun a => a.layerRange.start).Nodup :=
      List.pairwise_map.2 (h.ascending.imp Nat.ne_of_lt)
    have haa : a = a' :=
      List.inj_on_of_nodup_map hstarts ha ha' (Nat.le_antisymm hle hge)
    rw [haa, hget'] at hget
    exact (Option.some_inj.1 hget).symm
  rw [pipelineOrder, heq, h.map_nodeId_entries]

end Rebalanced

/-! ## The registry and the pipeline -/

section

variable (f links modelConfig schedulingMode maxSeqLen skipNodeIds reg)
  (h : forcedRebalance f links modelConfig schedulingMode maxSeqLen skipNodeIds reg = .ok res reg')
include h

/-- **Every node of the pipeline is ready and has answered** exactly when the
connection of every scheduled worker takes the `Reconfigure` and delivers
the worker's answer before anything else. -/
theorem rebalance_ready_iff :
    (∀ id ∈ res.pipeline.pipelineOrder, reg'.status id = some .ready ∧
      (id, .ok (.workerReady, true)) ∈ awaitReady links res.assignments reg') ↔
      ∀ id ∈ scheduledIds f
        (reg.rebalanceInput f modelConfig schedulingMode maxSeqLen skipNodeIds),
        (links id).Answers := by
  have hres := rebalanced_of_ok h
  rw [hres.order, ← hres.scheduled]
  simp only [List.forall_mem_map]
  refine forall₂_congr fun a ha => ?_
  rw [hres.status_of_mem ha, hres.mem_awaitReady ha, Link.received_eq_answer]
  exact ⟨fun hboth => hboth.2, fun hanswers => ⟨hanswers.1, hanswers⟩⟩

/-- **The registry describes the pipeline**, so that its workers are those
that are heartbeated and counted for free blocks, exactly when no worker
outside the schedule was serving before the rebalance. -/
theorem rebalance_registry_iff
    (hsend : ∀ a ∈ res.assignments, (links a.nodeId).sendError = none) :
    (reg'.pipelineOrder = res.pipeline.pipelineOrder ∧
      (∀ a ∈ res.assignments, ∃ e, reg'.get a.nodeId = some e ∧ e.assignment = some a) ∧
      reg'.readerHandles.Perm res.pipeline.pipelineOrder ∧
      reg'.minFreeBlocks =
        ((res.pipeline.pipelineOrder.filterMap reg'.get).map (·.freeBlocks)).min?.getD 0) ↔
      ∀ e ∈ reg.workers, e.serves = true → e.nodeId ∈ scheduledIds f
        (reg.rebalanceInput f modelConfig schedulingMode maxSeqLen skipNodeIds) := by
  have hres := rebalanced_of_ok h
  rw [hres.order, ← hres.scheduled]
  constructor
  · rintro ⟨-, -, hperm, -⟩ e he hserves
    by_contra hout
    -- a worker outside the schedule goes on serving
    have hstale : e ∈ reg'.serving :=
      (hres.mem_serving hsend).2 (.inr ⟨List.mem_filter.2 ⟨he, hserves⟩, hout⟩)
    exact hout (hperm.mem_iff.1 (List.mem_map_of_mem hstale))
  · intro hall
    have hserving : ∀ e ∈ reg.serving, e.nodeId ∈ res.assignments.map (·.nodeId) := by
      intro e he
      obtain ⟨hmem, hserves⟩ := List.mem_filter.1 he
      exact hall e hmem hserves
    have hperm := hres.serving_perm hsend hserving
    refine ⟨hres.pipelineOrder_eq hsend hserving, fun a ha => ?_, ?_, ?_⟩
    · obtain ⟨e, hget, hassign, -⟩ := hres.get_of_mem ha
      exact ⟨e, hget, hassign⟩
    · have hmap := hperm.map (·.nodeId)
      rw [hres.map_nodeId_entries] at hmap
      exact hmap
    · rw [List.filterMap_map]
      refine congrArg (·.getD 0) (Option.ext fun m => ?_)
      rw [List.min?_eq_some_iff, List.min?_eq_some_iff]
      simp only [(hperm.map _).mem_iff]
      rfl

end

/-! ## Two workers and a slow third -/

/-- A ready worker with a range. -/
def readyEntry (w : WorkerCapabilities ℚ) (range : LayerRange) : WorkerEntry ℚ :=
  { capabilities := w, status := .ready, freeBlocks := 0,
    assignment := some { nodeId := w.nodeId, layerRange := range, role := .middle,
                         expectedDecodeMs := 1, weightMemoryGb := 0, cacheMemoryGb := 0 } }

/-- Two workers with half of the layers each. -/
def twoReady : PeerRegistry ℚ where
  workers := [readyEntry (ampleWorker "w1") ⟨0, 2⟩, readyEntry (ampleWorker "w2") ⟨2, 4⟩]
  distinct := by decide

/-- The same beside a slow worker that has layers too. -/
def slowThird : PeerRegistry ℚ where
  workers := [readyEntry (ampleWorker "w1") ⟨0, 2⟩, readyEntry (ampleWorker "w2") ⟨2, 3⟩,
    readyEntry ⟨"w3", 10000, 100, 100⟩ ⟨3, 4⟩]
  distinct := by decide

/-- A connection that delivers the answer. -/
def answering : Link := { sendError := none, unread := [], answer := .ok () }

/-- The first worker's heartbeat is still unread. -/
def heartbeatFirst (id : String) : Link :=
  if id = "w1" then { answering with unread := [.heartbeatAck] } else answering

/-- A rebalance succeeds though the frame read from the first worker is not
its answer. -/
theorem heartbeat_taken_for_answer :
    ((ok? (forcedRebalance F32.exact heartbeatFirst fourLayers .equalSplit 64 [] twoReady)).map
      fun p => (p.1.pipeline.pipelineOrder, awaitReady heartbeatFirst p.1.assignments p.2)) =
      some (["w1", "w2"],
        [("w1", .ok (.heartbeatAck, false)), ("w2", .ok (.workerReady, true))]) := by
  decide +kernel

theorem rebalance_ready_iff_twoReady :
    ∃ res reg', forcedRebalance F32.exact (fun _ => answering) fourLayers .equalSplit 64 []
        twoReady = .ok res reg' ∧
      ((∀ id ∈ res.pipeline.pipelineOrder, reg'.status id = some .ready ∧
        (id, .ok (.workerReady, true)) ∈
          awaitReady (fun _ => answering) res.assignments reg') ↔
        ∀ id ∈ scheduledIds F32.exact
          (twoReady.rebalanceInput F32.exact fourLayers .equalSplit 64 []),
          answering.Answers) := by
  have hok : isOk (forcedRebalance F32.exact (fun _ => answering) fourLayers .equalSplit 64 []
      twoReady) = true := by decide +kernel
  obtain ⟨res, reg', h⟩ := exists_of_isOk hok
  exact ⟨res, reg', h, rebalance_ready_iff F32.exact (fun _ => answering) fourLayers .equalSplit
    64 [] twoReady h⟩

/-- The slow worker is not scheduled, and the registry goes on listing it
with its old layer. -/
theorem stale_worker_listed :
    ((ok? (forcedRebalance F32.exact (fun _ => answering) fourLayers .auto 64 [] slowThird)).map
      fun p => (p.1.pipeline.pipelineOrder, p.2.pipelineOrder)) =
      some (["w1", "w2"], ["w1", "w2", "w3"]) := by
  decide +kernel

theorem rebalance_registry_iff_twoReady :
    ∃ res reg', forcedRebalance F32.exact (fun _ => answering) fourLayers .auto 64 [] twoReady =
        .ok res reg' ∧
      ((reg'.pipelineOrder = res.pipeline.pipelineOrder ∧
        (∀ a ∈ res.assignments, ∃ e, reg'.get a.nodeId = some e ∧ e.assignment = some a) ∧
        reg'.readerHandles.Perm res.pipeline.pipelineOrder ∧
        reg'.minFreeBlocks =
          ((res.pipeline.pipelineOrder.filterMap reg'.get).map (·.freeBlocks)).min?.getD 0) ↔
        ∀ e ∈ twoReady.workers, e.serves = true → e.nodeId ∈ scheduledIds F32.exact
          (twoReady.rebalanceInput F32.exact fourLayers .auto 64 [])) := by
  have hok : isOk (forcedRebalance F32.exact (fun _ => answering) fourLayers .auto 64 []
      twoReady) = true := by decide +kernel
  obtain ⟨res, reg', h⟩ := exists_of_isOk hok
  exact ⟨res, reg', h, rebalance_registry_iff F32.exact (fun _ => answering) fourLayers .auto 64 []
    twoReady h fun _ _ => rfl⟩

end PeerRegistry

end Fracture
