import Fracture.Protocol.Frame
import Fracture.Registry.Model

/-!
# Forced rebalance

A rebalance schedules the layers anew over the workers that are not dead,
assigns each scheduled worker its range, sends it `Reconfigure`, reads one
frame from each of them and builds the pipeline. What is read is only
logged: the pipeline is the same whatever it was. Workers that are not
scheduled keep their entries.

The frame a worker's connection delivers is given by its link: what had
been sent before comes first, then the worker's answer.
-/

namespace Fracture

open Effect Layers

variable {F : Type}

/-- The connection to a worker during a rebalance. -/
structure Link where
  /-- Why a frame cannot be sent, if it cannot. -/
  sendError : Option FractureError
  /-- What comes in before the answer to this `Reconfigure`. -/
  unread : List MessageType
  /-- `WorkerReady`, or how the connection ends instead. -/
  answer : Except FractureError Unit

namespace Link

/-- The next frame of the connection, and whether it is the answer to this
`Reconfigure`. -/
def received (l : Link) : Except FractureError (MessageType × Bool) :=
  match l.unread, l.sendError, l.answer with
  | m :: _, _, _ => .ok (m, false)
  | [], none, .ok () => .ok (.workerReady, true)
  | [], none, .error e => .error e
  | [], some e, _ => .error e

/-- The connection takes the `Reconfigure`, delivers nothing before the
answer, and the worker answers. -/
def Answers (l : Link) : Prop := l.sendError = none ∧ l.unread = [] ∧ l.answer = .ok ()

theorem received_eq_answer {l : Link} : l.received = .ok (.workerReady, true) ↔ l.Answers := by
  obtain ⟨sendError, unread, answer⟩ := l
  unfold received Answers
  cases unread with
  | cons m ms => simp
  | nil => cases sendError with
    | some e => simp
    | none => cases answer with
      | error e => simp
      | ok u => simp

end Link

structure RebalanceResult (F : Type) where
  pipeline : DistributedPipeline
  assignments : List (LayerAssignment F)

namespace PeerRegistry

variable (f : F32 F) (links : String → Link) (modelConfig : ModelConfig)
  (schedulingMode : SchedulingMode) (maxSeqLen : ℕ) (skipNodeIds : List String)

/-- What the scheduler is asked: the workers that are not dead, without
some. -/
def rebalanceInput (reg : PeerRegistry F) : SchedulerInput F :=
  { modelConfig, workers := reg.allCapabilities.filter fun c => c.nodeId ∉ skipNodeIds,
    coordinatorCompute := none, mode := schedulingMode, maxSeqLen, hopLatencyMs := f.ofNat 2 }

/-- Assign each worker its layers and send it `Reconfigure`. A worker that
cannot be sent it is dead. -/
def configure : List (LayerAssignment F) → EStateM Fault (PeerRegistry F) Unit
  | [], reg => .ok () reg
  | a :: rest, reg =>
    match reg.assign a.nodeId a with
    | .error e =>
      let id := a.nodeId
      let text := e.display
      .error (.error (.pipeline s!"forced rebalance: assign '{id}' failed: {text}")) reg
    | .ok assigned =>
      match (links a.nodeId).sendError with
      | none => configure rest assigned
      | some _ => configure rest (assigned.markDead a.nodeId)

/-- The frame that is read from each worker, in the order of the
schedule. -/
def awaitReady (assignments : List (LayerAssignment F)) (reg : PeerRegistry F) :
    List (String × Except FractureError (MessageType × Bool)) :=
  assignments.filterMap fun a =>
    (reg.get a.nodeId).map fun _ => (a.nodeId, (links a.nodeId).received)

def forcedRebalance : EStateM Fault (PeerRegistry F) (RebalanceResult F) := fun reg =>
  let input := reg.rebalanceInput f modelConfig schedulingMode maxSeqLen skipNodeIds
  if input.workers.isEmpty then
    .error (.error (.pipeline "forced rebalance: no workers available after exclusions")) reg
  else
    match schedule f input with
    | .error e => .error e reg
    | .ok result =>
      match configure links result.assignments reg with
      | .error e reg => .error e reg
      | .ok () reg =>
        match DistributedPipeline.new result.assignments modelConfig.hiddenSize with
        | .error e => .error e reg
        | .ok pipeline => .ok { pipeline, assignments := result.assignments } reg

end PeerRegistry

/-! ## Who is scheduled -/

/-- The workers a schedule assigns layers to, in the order of the layers. -/
def Layers.scheduledIds (f : F32 F) (input : SchedulerInput F) : List String :=
  match input.mode with
  | .auto => (keptNodes f input).map (·.nodeId)
  | .equalSplit => (candidates input).map (·.nodeId)
  | .manual manual => manual.map (·.nodeId)

theorem Layers.map_nodeId_of_schedule {f : F32 F} {input : SchedulerInput F} {r : SchedulerResult F}
    (h : schedule f input = .ok r) : r.assignments.map (·.nodeId) = scheduledIds f input := by
  obtain ⟨hne, -, h⟩ := schedule_eq_ok h
  unfold scheduleMode at h
  unfold scheduledIds
  cases hmode : input.mode with
  | auto =>
    rw [hmode] at h
    obtain ⟨counts, -, hplan⟩ := planned_auto hne h
    exact hplan.map_nodeId
  | equalSplit =>
    rw [hmode] at h
    exact (planned_equal h).map_nodeId
  | manual manual =>
    rw [hmode] at h
    obtain ⟨ordered, hacc, hplan⟩ := planned_manual h
    rw [hplan.map_nodeId, List.map_map]
    exact hacc.map_nodeId

/-! ## What a rebalance leaves in the registry -/

namespace PeerRegistry

variable {f : F32 F} {links : String → Link} {modelConfig : ModelConfig}
  {schedulingMode : SchedulingMode} {maxSeqLen : ℕ} {skipNodeIds : List String}
  {reg reg' : PeerRegistry F} {res : RebalanceResult F}

/-- The entry of a worker that is assigned layers. -/
def assigned (links : String → Link) (a : LayerAssignment F) (e : WorkerEntry F) : WorkerEntry F :=
  { e with assignment := some a,
           status := if (links a.nodeId).sendError.isNone then .ready else .dead }

/-- The entry of a worker after its part of a schedule, if it has one. -/
def settle (links : String → Link) (assignments : List (LayerAssignment F)) (e : WorkerEntry F) :
    WorkerEntry F :=
  match assignments.find? fun a => a.nodeId == e.nodeId with
  | none => e
  | some a => assigned links a e

variable {as : List (LayerAssignment F)}

theorem settle_of_notMem {e : WorkerEntry F} (h : e.nodeId ∉ as.map (·.nodeId)) :
    settle links as e = e := by
  have hnone : (as.find? fun a => a.nodeId == e.nodeId) = none := by
    refine List.find?_eq_none.2 fun a ha hid => h ?_
    exact List.mem_map.2 ⟨a, ha, by simpa using hid⟩
  rw [settle, hnone]

variable {a : LayerAssignment F}

theorem settle_of_mem (hnodup : (as.map (·.nodeId)).Nodup) (ha : a ∈ as) {e : WorkerEntry F}
    (hid : e.nodeId = a.nodeId) : settle links as e = assigned links a e := by
  have hfind : (as.find? fun b => b.nodeId == e.nodeId) = some a := by
    cases hfind : as.find? fun b => b.nodeId == e.nodeId with
    | none =>
      have hnone := List.find?_eq_none.1 hfind a ha
      simp [hid] at hnone
    | some b =>
      have hb : b.nodeId = e.nodeId := by simpa using List.find?_some hfind
      rw [List.inj_on_of_nodup_map hnodup (List.mem_of_find?_eq_some hfind) ha (hb.trans hid)]
  rw [settle, hfind]

@[simp] theorem nodeId_settle (as : List (LayerAssignment F)) (e : WorkerEntry F) :
    (settle links as e).nodeId = e.nodeId := by
  unfold settle
  split <;> rfl

variable {nodeId : String}

section

variable (h : reg.assign nodeId a = .ok reg')
include h

theorem assign_eq_ok :
    reg' = reg.modify nodeId (fun e => { e with assignment := some a, status := .ready })
      fun _ => rfl := by
  unfold assign at h
  split at h
  · cases h
  · cases h
  · cases h
    rfl

theorem get_assign_self :
    reg'.get nodeId =
      (reg.get nodeId).map fun e => { e with assignment := some a, status := .ready } := by
  rw [assign_eq_ok h, get_modify_self]

theorem get_assign_of_ne {other : String} (hne : other ≠ nodeId) :
    reg'.get other = reg.get other := by
  rw [assign_eq_ok h, get_modify_of_ne hne]

end

/-- One turn of the loop settles the entry of its worker. -/
theorem workers_configured {rest : List (LayerAssignment F)}
    (h : configure links (a :: rest) reg = .ok () reg') :
    ∃ mid : PeerRegistry F, configure links rest mid = .ok () reg' ∧
      mid.workers = reg.workers.map fun e =>
        if e.nodeId = a.nodeId then assigned links a e else e := by
  unfold configure at h
  split at h
  · cases h
  · next middle hassign =>
    obtain rfl := assign_eq_ok hassign
    split at h
    · next hsend =>
      refine ⟨_, h, List.map_congr_left fun e _ => ?_⟩
      simp only [assigned, hsend, Option.isNone_none, if_true]
    · next err hsend =>
      refine ⟨_, h, ?_⟩
      simp only [markDead, modify, List.map_map]
      refine List.map_congr_left fun e _ => ?_
      by_cases hid : e.nodeId = a.nodeId
      · have hid' : e.capabilities.nodeId = a.nodeId := hid
        simp [assigned, hsend, hid', WorkerEntry.nodeId]
      · simp [hid]

/-- **Configuring** settles every entry. -/
theorem configure_eq_ok (hnodup : (as.map (·.nodeId)).Nodup)
    (h : configure links as reg = .ok () reg') :
    reg'.workers = reg.workers.map (settle links as) := by
  induction as generalizing reg with
  | nil =>
    cases h
    exact (List.map_id _).symm
  | cons a rest ih =>
    obtain ⟨hfresh, hrest⟩ := List.nodup_cons.1 hnodup
    obtain ⟨mid, hconf, hmid⟩ := workers_configured h
    rw [ih hrest hconf, hmid, List.map_map]
    refine List.map_congr_left fun e _ => ?_
    rw [Function.comp_apply]
    by_cases hid : e.nodeId = a.nodeId
    · -- the rest of the schedule does not name the worker again
      have hout : (assigned links a e).nodeId ∉ rest.map (·.nodeId) := by
        have hsame : (assigned links a e).nodeId = a.nodeId := hid
        rw [hsame]
        exact hfresh
      rw [if_pos hid, settle_of_notMem hout, settle_of_mem hnodup List.mem_cons_self hid]
    · rw [if_neg hid, settle, settle, List.find?_cons_of_neg]
      simpa using fun heq : a.nodeId = e.nodeId => hid heq.symm

theorem allCapabilities_nodup (reg : PeerRegistry F) :
    (reg.allCapabilities.map (·.nodeId)).Nodup := by
  unfold allCapabilities
  rw [List.map_map]
  exact reg.distinct.sublist (List.filter_sublist.map _)

/-- **A rebalance that succeeds** has a schedule, a pipeline of it, and
settles every entry by it. -/
theorem forcedRebalance_eq_ok
    (h : forcedRebalance f links modelConfig schedulingMode maxSeqLen skipNodeIds reg = .ok res reg') :
    ∃ r, schedule f (reg.rebalanceInput f modelConfig schedulingMode maxSeqLen skipNodeIds) = .ok r ∧
      res.assignments = r.assignments ∧
      DistributedPipeline.new res.assignments modelConfig.hiddenSize = .ok res.pipeline ∧
      (res.assignments.map (·.nodeId)).Nodup ∧
      reg'.workers = reg.workers.map (settle links res.assignments) := by
  unfold forcedRebalance at h
  dsimp only at h
  split at h
  · cases h
  · split at h
    · cases h
    · next r hschedule =>
      have hcandidates : ((candidates
          (reg.rebalanceInput f modelConfig schedulingMode maxSeqLen skipNodeIds)).map
          (·.nodeId)).Nodup := by
        exact reg.allCapabilities_nodup.sublist (List.filter_sublist.map _)
      obtain ⟨cs, counts, hplan⟩ := exists_planned hschedule
      have hnodup : (r.assignments.map (·.nodeId)).Nodup :=
        hplan.map_nodeId ▸ hplan.distinct hcandidates
      split at h
      · cases h
      · next conf hconf =>
        split at h
        · cases h
        · next pipeline hpipeline =>
          cases h
          exact ⟨r, hschedule, rfl, hpipeline, hnodup, configure_eq_ok hnodup hconf⟩

end PeerRegistry

end Fracture
