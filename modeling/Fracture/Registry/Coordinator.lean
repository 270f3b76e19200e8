import Fracture.Common.Runs
import Fracture.Registry.Outcome

/-!
# The coordinator and its workers

The coordinator changes its registry in two tasks. The listener registers
workers that connect, and reconfigures the pipeline when one of them was
known before. The loop marks workers that leave or die, and rebalances.
Their steps come in any order. A pipeline that the listener has made is
published, and the loop goes on with its own until it takes the new one, at
the top of a turn or while it is idle.

A worker is followed as far as configuration goes: a fresh process waits
for its first `RegisterAck` and for nothing else, a process that lost its
coordinator has its layers and takes either answer to its `ReRegister`,
and a serving process takes `Reconfigure`. Loading is taken to succeed.
-/

namespace Fracture

open Effect Layers

variable {F : Type}

/-! ## Workers -/

/-- A frame of the coordinator to a worker, with the layers it assigns. -/
structure SentFrame where
  nodeId : String
  msgType : MessageType
  layers : Option LayerRange
deriving DecidableEq, Repr

/-- How a worker presents itself to the listener. -/
inductive Registration where
  | register
  | reRegister (current : Option LayerRange)
deriving DecidableEq, Repr

/-- A worker process and the layers it has loaded. -/
inductive WorkerProcess where
  | awaitingAck
  | standby (loaded : Option LayerRange)
  | serving (loaded : Option LayerRange)
  | exited
deriving DecidableEq, Repr

namespace WorkerProcess

/-- The process that sends a registration. -/
def registering : Registration → WorkerProcess
  | .register => .awaitingAck
  | .reRegister current => .standby current

/-- What a process does on a frame, and its answer if that is about its
configuration. -/
def receive (p : WorkerProcess) (msgType : MessageType) (layers : Option LayerRange) :
    WorkerProcess × Option MessageType :=
  match p, msgType with
  | .awaitingAck, .registerAck => (.serving layers, some .workerReady)
  -- "expected RegisterAck": the process ends
  | .awaitingAck, _ => (.exited, none)
  -- the answer to `ReRegister` says nothing about layers: they are kept
  | .standby loaded, .registerAck => (.serving loaded, some .workerReady)
  | .standby _, .reconfigure => (.serving layers, some .workerReady)
  | .standby _, .shutdown => (.exited, none)
  | .standby loaded, _ => (.standby loaded, none)
  | .serving _, .reconfigure => (.serving layers, some .workerReady)
  | .serving _, .shutdown => (.exited, none)
  | .serving loaded, .registerAck => (.serving loaded, some .error)
  | .serving loaded, _ => (.serving loaded, none)
  | .exited, _ => (.exited, none)

/-- The process loads the layers of a frame and answers that it is ready. -/
def Accepts (p : WorkerProcess) (frame : SentFrame) : Prop :=
  p.receive frame.msgType frame.layers = (.serving frame.layers, some .workerReady)

instance (p : WorkerProcess) (frame : SentFrame) : Decidable (p.Accepts frame) :=
  inferInstanceAs (Decidable (_ = _))

/-- The processes after some frames. -/
def deliver (processes : String → WorkerProcess) (frames : List SentFrame) :
    String → WorkerProcess :=
  frames.foldl (fun ps frame =>
    Function.update ps frame.nodeId ((ps frame.nodeId).receive frame.msgType frame.layers).1)
    processes

end WorkerProcess

/-! ## The coordinator -/

/-- What both tasks are configured with; the loop rebalances only if it was
given the model. -/
structure CoordinatorConfig (F : Type) where
  f32 : F32 F
  modelConfig : ModelConfig
  schedulingMode : SchedulingMode
  maxSeqLen : ℕ
  canRebalance : Bool

/-- The registry, the workers of the loop's pipeline, the processes behind
the connections, and all frames sent so far. -/
structure Coordinator (F : Type) where
  registry : PeerRegistry F
  pipelineOrder : List String
  /-- The pipeline that is published and the loop has not taken. -/
  published : Option (List String)
  processes : String → WorkerProcess
  sent : List SentFrame

inductive CoordinatorEvent (F : Type) where
  /-- The listener accepts a worker. -/
  | join (capabilities : WorkerCapabilities F) (kind : Registration) (links : String → Link)
  /-- A poll finds a worker's `LeaveIntent`. -/
  | leave (nodeId : String)
  /-- A poll finds a worker's acknowledgement. -/
  | acked (nodeId : String) (freeBlocks : ℕ)
  /-- Workers have missed too many heartbeats. -/
  | crash (deadIds : List String) (links : String → Link)
  /-- No sequence is active: workers may leave and join. -/
  | drain (links : String → Link)
  /-- The loop takes the pipeline that is published. -/
  | adopt
  /-- A sequence is admitted: `CacheAlloc` goes to the pipeline. -/
  | allocate (links : String → Link)
  /-- The registry's map is iterated in another order from now on. -/
  | rehash (workers : List (WorkerEntry F))

namespace Coordinator

variable (cfg : CoordinatorConfig F) (links : String → Link)

/-- Frames go out, and the processes take them. -/
def emit (st : Coordinator F) (frames : List SentFrame) : Coordinator F :=
  { st with processes := WorkerProcess.deliver st.processes frames, sent := st.sent ++ frames }

/-- A worker can be sent a frame. -/
def reachable (nodeId : String) : Bool := (links nodeId).sendError.isNone

/-- The schedule of a rebalance without some workers. -/
def rebalanceSchedule (skip : List String) (reg : PeerRegistry F) : Except Fault (SchedulerResult F) :=
  let input := reg.rebalanceInput cfg.f32 cfg.modelConfig cfg.schedulingMode cfg.maxSeqLen skip
  if input.workers.isEmpty then
    err (.pipeline "forced rebalance: no workers available after exclusions")
  else schedule cfg.f32 input

/-- The frames of a rebalance: `Reconfigure` to every scheduled worker. -/
def rebalanceFrames (skip : List String) (reg : PeerRegistry F) : List SentFrame :=
  match rebalanceSchedule cfg skip reg with
  | .error _ => []
  | .ok r => (r.assignments.filter fun a => reachable links a.nodeId).map fun a =>
      { nodeId := a.nodeId, msgType := .reconfigure, layers := some a.layerRange }

/-- A forced rebalance and its frames. The pipeline is replaced when it
succeeds. -/
def rebalance (skip : List String) (st : Coordinator F) : Coordinator F :=
  let frames := rebalanceFrames cfg links skip st.registry
  match st.registry.forcedRebalance cfg.f32 links cfg.modelConfig cfg.schedulingMode cfg.maxSeqLen
      skip with
  | .ok res registry =>
    { st with registry, pipelineOrder := res.pipeline.pipelineOrder }.emit frames
  | .error _ registry => { st with registry }.emit frames

/-- Assign each worker its layers where that is possible. -/
def assignAll (assignments : List (LayerAssignment F)) (reg : PeerRegistry F) : PeerRegistry F :=
  assignments.foldl (fun reg a => (reg.assign a.nodeId a).toOption.getD reg) reg

/-- What a worker is sent when another, or itself, has come back: a fresh
process and one whose layers are unchanged get `RegisterAck`. -/
def reconnectMessage (nodeId : String) (kind : Registration) (a : LayerAssignment F) : MessageType :=
  if a.nodeId = nodeId then
    match kind with
    | .register => .registerAck
    | .reRegister current => if current = some a.layerRange then .registerAck else .reconfigure
  else .reconfigure

/-- A known worker has come back: schedule anew, reconfigure everyone and
publish the pipeline. -/
def reconnect (nodeId : String) (kind : Registration) (st : Coordinator F) : Coordinator F :=
  match rebalanceSchedule cfg [] st.registry with
  | .error _ => st
  | .ok r =>
    let frames := (r.assignments.filter fun a => reachable links a.nodeId).map fun a =>
      { nodeId := a.nodeId, msgType := reconnectMessage nodeId kind a, layers := some a.layerRange }
    let st := { st with registry := assignAll r.assignments st.registry }.emit frames
    if r.assignments.all fun a => reachable links a.nodeId then
      match DistributedPipeline.new r.assignments cfg.modelConfig.hiddenSize with
      | .error _ => st
      | .ok pipeline => { st with published := some pipeline.pipelineOrder }
    else st

def adopt (st : Coordinator F) : Coordinator F :=
  { st with pipelineOrder := st.published.getD st.pipelineOrder, published := none }

/-- The listener registers a worker. One that is new has to wait; for one
that is not, the pipeline is reconfigured. -/
def join (capabilities : WorkerCapabilities F) (kind : Registration) (st : Coordinator F) :
    Coordinator F :=
  let nodeId := capabilities.nodeId
  match st.registry.get nodeId with
  | none =>
    match st.registry.register capabilities with
    | .error _ => st
    | .ok registry =>
      { st with registry := registry.markPending nodeId,
                processes := Function.update st.processes nodeId (.registering kind) }
  | some _ =>
    match (st.registry.markDead nodeId).register capabilities with
    | .error _ => { st with registry := st.registry.markDead nodeId }
    | .ok registry =>
      reconnect cfg links nodeId kind
        { st with registry, processes := Function.update st.processes nodeId (.registering kind) }

/-- Workers of the pipeline have died. -/
def crash (deadIds : List String) (st : Coordinator F) : Coordinator F :=
  let dead := deadIds.filter fun id => id ∈ st.registry.pipelineOrder
  if dead.isEmpty then st
  else
    let st := { st with registry := dead.foldl PeerRegistry.markDead st.registry }
    if cfg.canRebalance then rebalance cfg links dead st else st

/-- Workers that leave are shut down, and those that wait are taken in. -/
def drain (st : Coordinator F) : Coordinator F :=
  let draining := st.registry.withStatus .draining
  if draining.isEmpty && st.registry.pendingWorkers.isEmpty then st
  else
    let frames := (draining.filter (reachable links)).map fun id =>
      { nodeId := id, msgType := .shutdown, layers := none }
    let st := { st with registry := draining.foldl PeerRegistry.markDead st.registry }.emit frames
    if cfg.canRebalance then rebalance cfg links draining st else st

/-- The workers of the pipeline that are sent a frame, one after the other
until one is not there or cannot be reached. -/
def reached (st : Coordinator F) : List String :=
  st.pipelineOrder.takeWhile fun id => (st.registry.get id).isSome && reachable links id

def allocate (st : Coordinator F) : Coordinator F :=
  st.emit ((st.reached links).map fun id => { nodeId := id, msgType := .cacheAlloc, layers := none })

/-- Another order of the same entries. -/
def rehash [DecidableEq F] (workers : List (WorkerEntry F)) (st : Coordinator F) : Coordinator F :=
  if h : workers.Perm st.registry.workers then
    { st with registry := ⟨workers, (h.map _).nodup_iff.2 st.registry.distinct⟩ }
  else st

def step [DecidableEq F] (st : Coordinator F) : CoordinatorEvent F → Coordinator F
  | .join capabilities kind links => st.join cfg links capabilities kind
  | .leave nodeId => { st with registry := st.registry.markDraining nodeId }
  | .acked nodeId freeBlocks =>
    { st with registry := st.registry.recordHeartbeat nodeId freeBlocks }
  | .crash deadIds links => st.crash cfg links deadIds
  | .drain links => st.drain cfg links
  | .adopt => st.adopt
  | .allocate links => st.allocate links
  | .rehash workers => st.rehash workers

end Coordinator

end Fracture
