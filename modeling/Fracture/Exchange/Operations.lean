import Fracture.Exchange.Model

/-!
# The coordinator's operations, frame by frame

The loop runs one operation of the pipeline at a time, and holds the
registry while it does: it allocates and frees caches, and sends batches
through the workers. In between it holds heartbeat rounds. The listener
works beside it. When a worker comes back it sends every worker its
layers and then waits for each of them, but gives the registry away in
between.

A step is one frame read by one task, one frame taken by a worker, or a
whole run of sends: sending does not wait for anyone, and a worker's step
between two sends could as well come after both.
-/

namespace Fracture

open Effect

variable {F : Type}

/-! ## Heartbeats -/

/-- The nonce of the last round, and how many rounds each worker has
missed. -/
structure HeartbeatTracker where
  pendingNonce : Option ℕ
  missedCount : String → ℕ

namespace HeartbeatTracker

def new : HeartbeatTracker := ⟨none, fun _ => 0⟩

def setPendingNonce (t : HeartbeatTracker) (nonce : ℕ) : HeartbeatTracker :=
  { t with pendingNonce := some nonce }

/-- An acknowledgement counts if it echoes the nonce of the last round and
is from a worker that is not dead. -/
def processAck (t : HeartbeatTracker) (reg : PeerRegistry F) (nodeId : String)
    (nonceEcho freeBlocks : ℕ) : HeartbeatTracker × PeerRegistry F :=
  match reg.status nodeId with
  | none | some .dead => (t, reg)
  | some _ =>
    if t.pendingNonce = some nonceEcho then
      ({ t with missedCount := Function.update t.missedCount nodeId 0 },
        reg.recordHeartbeat nodeId freeBlocks)
    else (t, reg)

/-- Count a miss for each worker; returns those that reached the limit. -/
def incrementMissed (t : HeartbeatTracker) (maxMissed : ℕ) :
    List String → List String × HeartbeatTracker
  | [] => ([], t)
  | id :: rest =>
    let count := t.missedCount id + 1
    let (timedOut, t) :=
      incrementMissed { t with missedCount := Function.update t.missedCount id count } maxMissed rest
    (if count ≥ maxMissed then id :: timedOut else timedOut, t)

end HeartbeatTracker

/-! ## The coordinator -/

/-- What the loop is in the middle of. -/
inductive LoopTask where
  | idle
  /-- `CacheAlloc` went out. A task reads from each worker of `reading`,
  `got` is what those that are done have, and `succeeded` are the workers
  whose acknowledgements were counted. -/
  | collecting (op seqId : ℕ) (reading : List String)
    (got : List (String × Except FractureError Came)) (succeeded : List String)
  /-- A batch is at one worker, with others to come. -/
  | forwarding (op seqId : ℕ) (nodeId : String) (rest : List String)

/-- Where the listener is: it has nothing to wait for, has sent the workers
their layers, or holds the registry and waits for those that are left. -/
inductive Listening where
  | idle
  | sent (op : ℕ) (frames : List (String × Request)) (pipeline : Except Fault DistributedPipeline)
  | waiting (op : ℕ) (left : List (String × Request))
    (pipeline : Except Fault DistributedPipeline)

/-- A frame that an operation took for the answer to its request. -/
structure Taken where
  op : ℕ
  nodeId : String
  frame : Came
deriving DecidableEq, Repr

structure Hub (F : Type) where
  registry : PeerRegistry F
  conns : String → Conn
  /-- The loop's pipeline, and one it has yet to take up. -/
  pipeline : DistributedPipeline
  broadcast : Option DistributedPipeline
  task : LoopTask
  listening : Listening
  tracker : HeartbeatTracker
  nextOp : ℕ
  taken : List Taken
  results : List (ℕ × Except FractureError Unit)

namespace Hub

/-- Before anything was sent, with workers that serve. -/
def start (registry : PeerRegistry F) (pipeline : DistributedPipeline) : Hub F :=
  { registry, conns := fun _ => .serving none, pipeline, broadcast := none, task := .idle,
    listening := .idle, tracker := .new, nextOp := 0, taken := [], results := [] }

variable (hub : Hub F)

/-- A task holds the registry. -/
def locked : Bool :=
  match hub.task, hub.listening with
  | .idle, .waiting _ _ _ => true
  | .idle, _ => false
  | _, _ => true

def setConn (id : String) (c : Conn) : Hub F :=
  { hub with conns := Function.update hub.conns id c }

theorem conns_setConn_self (id : String) (c : Conn) : (hub.setConn id c).conns id = c :=
  Function.update_self ..

theorem conns_setConn_of_ne {w id : String} (h : w ≠ id) (c : Conn) :
    (hub.setConn id c).conns w = hub.conns w := Function.update_of_ne h ..

/-- Why a worker is not sent a frame, if it is not. -/
def sendFault (id : String) : Option FractureError :=
  match hub.registry.get id with
  | none => some (.pipeline s!"worker '{id}' not found in registry")
  | some _ => (hub.conns id).fault

def post (id : String) (frame : Sent) : Hub F := hub.setConn id ((hub.conns id).post frame)

/-- Send to one worker after the other, up to the first that cannot be
reached. -/
def sendEach (frame : Sent) : List String → Hub F → Option FractureError × Hub F
  | [], hub => (none, hub)
  | id :: rest, hub =>
    match hub.sendFault id with
    | some e => (some e, hub)
    | none => sendEach frame rest (hub.post id frame)

/-- Send to all that can be reached. -/
def sendQuiet (frame : Sent) (ids : List String) (hub : Hub F) : Hub F :=
  ids.foldl (fun hub id => if (hub.sendFault id).isNone then hub.post id frame else hub) hub

/-- An operation begins. -/
def begin : ℕ × Hub F := (hub.nextOp, { hub with nextOp := hub.nextOp + 1 })

/-- An operation returns. -/
def finish (op : ℕ) (result : Except FractureError Unit) : Hub F :=
  { hub with task := .idle, results := hub.results ++ [(op, result)] }

/-- An operation takes a frame for its answer. -/
def take (op : ℕ) (nodeId : String) (frame : Came) : Hub F :=
  { hub with taken := hub.taken ++ [{ op, nodeId, frame }] }

def setAllocated (seqs : List ℕ) : Hub F :=
  { hub with pipeline := { hub.pipeline with allocatedSeqs := seqs } }

/-! ## Allocating -/

/-- Go on collecting answers, or be done. -/
def collect (op seqId : ℕ) (reading : List String)
    (got : List (String × Except FractureError Came)) (succeeded : List String) : Hub F :=
  if reading.isEmpty && got.isEmpty then
    (hub.setAllocated (seqId :: hub.pipeline.allocatedSeqs)).finish op (.ok ())
  else { hub with task := .collecting op seqId reading got succeeded }

def allocCache (seqId : ℕ) : Hub F :=
  let (op, hub) := hub.begin
  if seqId ∈ hub.pipeline.allocatedSeqs then
    hub.finish op
      (.error (.pipeline s!"duplicate alloc_cache for seq {seqId}: cache already allocated"))
  else
    match sendEach { op, request := .cacheAlloc seqId } hub.pipeline.pipelineOrder hub with
    | (some e, hub) => hub.finish op (.error e)
    | (none, hub) => hub.collect op seqId hub.pipeline.pipelineOrder [] []

/-- Free the caches of the workers counted so far and return the error. -/
def rollback (op seqId : ℕ) (succeeded : List String) (e : FractureError) : Hub F :=
  (sendQuiet { op, request := .cacheFree seqId } succeeded hub).finish op (.error e)

/-- Look at the answer of one worker. -/
def joinAnswer (op seqId : ℕ) (reading : List String)
    (got : List (String × Except FractureError Came)) (succeeded : List String) (id : String) :
    Except FractureError Came → Hub F
  | .error e => hub.rollback op seqId succeeded e
  | .ok came =>
    let hub := hub.take op id came
    match came.reply with
    | .cacheAllocAck _ => hub.collect op seqId reading got (succeeded ++ [id])
    | .error payload =>
      let message := payload.message
      let code := payload.errorCode.debug
      hub.rollback op seqId succeeded
        (.pipeline s!"worker '{id}' failed CacheAlloc: {message} (code {code})")
    | other =>
      let got := other.debugType
      hub.rollback op seqId succeeded (.protocol s!"expected CacheAllocAck from '{id}', got {got}")

/-- The `k`-th of the tasks that are done is joined. -/
def join (k : ℕ) : Hub F :=
  match hub.task with
  | .collecting op seqId reading got succeeded =>
    match got[k]? with
    | none => hub
    | some (id, answer) => hub.joinAnswer op seqId reading (got.eraseIdx k) succeeded id answer
  | _ => hub

/-! ## Batches -/

/-- Send the batch to the next worker. -/
def forwardTo (op seqId : ℕ) : List String → Hub F
  | [] => hub.finish op (.error (.pipeline "batched pipeline completed without producing logits"))
  | id :: rest =>
    match hub.sendFault id with
    | some e => hub.finish op (.error e)
    | none =>
      { hub.post id { op, request := .batchedForward seqId } with
        task := .forwarding op seqId id rest }

def batchedForward (seqIds : List ℕ) : Hub F :=
  let (op, hub) := hub.begin
  match seqIds.find? (· ∉ hub.pipeline.allocatedSeqs) with
  | some seqId =>
    hub.finish op (.error (.pipeline s!"batched_forward: seq {seqId} cache not allocated"))
  | none => hub.forwardTo op (seqIds.headD 0) hub.pipeline.pipelineOrder

/-- Look at what a worker made of the batch. -/
def forwardAnswer (op seqId : ℕ) (nodeId : String) (rest : List String) :
    Except FractureError Came → Hub F
  | .error e => hub.finish op (.error e)
  | .ok came =>
    let hub := hub.take op nodeId came
    match came.reply with
    | .error payload =>
      let message := payload.message
      let code := payload.errorCode.debug
      hub.finish op (.error (.pipeline
        s!"worker '{nodeId}' returned error during batched forward: {message} (code {code})"))
    | .batchedForwardResult .logits =>
      if rest.isEmpty then hub.finish op (.ok ())
      else hub.finish op
        (.error (.pipeline s!"non-tail worker '{nodeId}' returned logits in batched forward"))
    | .batchedForwardResult .activations =>
      if rest.isEmpty then hub.finish op
        (.error (.pipeline s!"tail worker '{nodeId}' returned activations in batched forward"))
      else hub.forwardTo op seqId rest
    | other =>
      let got := other.debugType
      hub.finish op (.error (.protocol s!"expected BatchedForwardResult from '{nodeId}', got {got}"))

/-- A task of the running operation reads the next frame of a worker, and
passes over an acknowledgement of a heartbeat. -/
def read (id : String) : Hub F :=
  match (hub.conns id).next with
  | none => hub
  | some answer =>
    let after := hub.setConn id (hub.conns id).advance
    match hub.task with
    | .idle => hub
    | .collecting op seqId reading got succeeded =>
      if id ∉ reading then hub
      else if answer.toOption.any (·.isHeartbeatAck) then after
      else { after with
        task := .collecting op seqId (reading.erase id) (got ++ [(id, answer)]) succeeded }
    | .forwarding op seqId nodeId rest =>
      if id ≠ nodeId then hub
      else if answer.toOption.any (·.isHeartbeatAck) then after
      else after.forwardAnswer op seqId nodeId rest answer

/-! ## Freeing -/

def freeCache (seqId : ℕ) : Hub F :=
  let (op, hub) := hub.begin
  if seqId ∈ hub.pipeline.allocatedSeqs then
    let hub := hub.setAllocated (hub.pipeline.allocatedSeqs.filter (· ≠ seqId))
    let (fault, hub) := sendEach { op, request := .cacheFree seqId } hub.pipeline.pipelineOrder hub
    match fault with
    | none => hub.finish op (.ok ())
    | some e => hub.finish op (.error e)
  else
    hub.finish op (.error (.pipeline s!"free_cache for seq {seqId}: not allocated or already freed"))

/-- The workers of the pipeline that are ready. -/
def readyOrder : List String :=
  hub.pipeline.pipelineOrder.filter fun id => hub.registry.status id = some .ready

def freeCacheBestEffort (seqId : ℕ) : Hub F :=
  let (op, hub) := hub.begin
  let hub := hub.setAllocated (hub.pipeline.allocatedSeqs.filter (· ≠ seqId))
  (sendQuiet { op, request := .cacheFree seqId } hub.readyOrder hub).finish op (.ok ())

/-- Free everything that is allocated. -/
def abortAllSequences : Hub F :=
  let (op, hub) := hub.begin
  let seqs := hub.pipeline.allocatedSeqs
  let hub := hub.setAllocated []
  seqs.foldl (fun hub seqId => sendQuiet { op, request := .cacheFree seqId } hub.readyOrder hub) hub

/-! ## Heartbeat rounds -/

/-- What one poll makes of the frame it read. -/
def processPoll (hub : Hub F) (poll : String × Option (Except FractureError Came)) : Hub F :=
  match poll.2 with
  | some (.ok came) =>
    match came.reply with
    | .heartbeatAck nonce freeBlocks =>
      let (tracker, registry) := hub.tracker.processAck hub.registry poll.1 nonce freeBlocks
      { hub with tracker, registry }
    | .leaveIntent => { hub with registry := hub.registry.markDraining poll.1 }
    | _ => hub
  | _ => hub

/-- Read one frame from every worker that serves, if there is one. -/
def pollAcks : Hub F :=
  let polled := hub.registry.readerHandles
  let after := { hub with
    conns := fun id => if id ∈ polled then (hub.conns id).advance else hub.conns id }
  (polled.map fun id => (id, (hub.conns id).next)).foldl processPoll after

/-- Those that a round finds dead. -/
def deadIds (maxMissed : ℕ) : List String :=
  if hub.tracker.pendingNonce.isSome then
    (hub.pollAcks.tracker.incrementMissed maxMissed hub.pollAcks.registry.pipelineOrder).1
  else []

/-- The part of a round that judges the last one. The rebalance after a
death is not part of it. -/
def judge (maxMissed : ℕ) : Hub F :=
  if hub.tracker.pendingNonce.isSome then
    let polled := hub.pollAcks
    let (dead, tracker) := polled.tracker.incrementMissed maxMissed polled.registry.pipelineOrder
    let judged := { polled with tracker }
    if dead.isEmpty then judged
    else { judged with registry := dead.foldl PeerRegistry.markDead judged.registry }.abortAllSequences
  else hub

/-- Ping every worker that serves. -/
def sendHeartbeats (nonce : ℕ) : Hub F :=
  let pinged := sendQuiet { op := 0, request := .heartbeat nonce } hub.registry.pipelineOrder hub
  { pinged with tracker := pinged.tracker.setPendingNonce nonce }

/-- A round as one step, though the loop lets the listener in between. -/
def round (maxMissed nonce : ℕ) : Hub F := (hub.judge maxMissed).sendHeartbeats nonce

/-! ## The listener -/

section

variable (cfg : CoordinatorConfig F)

/-- A worker's answer to its registration, or its new layers. -/
def layerFrame (nodeId : String) (kind : Registration) (a : LayerAssignment F) : String × Request :=
  (a.nodeId,
    if Coordinator.reconnectMessage nodeId kind a = .registerAck then .registerAck a.layerRange
    else .reconfigure a.layerRange)

/-- Schedule anew and send every worker its layers. -/
def reconfigure (nodeId : String) (kind : Registration) : Hub F :=
  match Coordinator.rebalanceSchedule cfg [] hub.registry with
  | .error _ => hub
  | .ok r =>
    let (op, hub) := hub.begin
    let frames := r.assignments.map (layerFrame nodeId kind)
    let hub := { hub with registry := Coordinator.assignAll r.assignments hub.registry }
    let sent := frames.foldl (fun hub p => sendQuiet { op, request := p.2 } [p.1] hub) hub
    -- a worker that is gone from the registry is passed over, one that cannot be sent to is not
    if frames.any fun p => (hub.registry.get p.1).isSome && (hub.sendFault p.1).isSome then sent
    else { sent with
      listening := .sent op frames
        (DistributedPipeline.new r.assignments cfg.modelConfig.hiddenSize) }

/-- A worker connects. One that is new has to wait; for one that is not,
everyone is reconfigured. -/
def accept (capabilities : WorkerCapabilities F) (kind : Registration) (handles : List ℕ) : Hub F :=
  let nodeId := capabilities.nodeId
  match hub.registry.get nodeId with
  | none =>
    match hub.registry.register capabilities with
    | .error _ => hub
    | .ok registry =>
      { hub.setConn nodeId (.registering kind handles) with registry := registry.markPending nodeId }
  | some _ =>
    match (hub.registry.markDead nodeId).register capabilities with
    | .error _ => { hub with registry := hub.registry.markDead nodeId }
    | .ok registry =>
      { hub.setConn nodeId (.registering kind handles) with registry }.reconfigure cfg nodeId kind

/-- The listener takes the registry to wait for its answers. -/
def await : Hub F :=
  match hub.listening with
  | .sent op frames pipeline => { hub with listening := .waiting op frames pipeline }
  | _ => hub

/-- The listener reads one frame, whatever it is, from the next worker. When
none is left it publishes the pipeline. -/
def ready : Hub F :=
  match hub.listening with
  | .waiting _ [] pipeline =>
    { hub with listening := .idle, broadcast := (pipeline.toOption).orElse fun _ => hub.broadcast }
  | .waiting op (p :: left) pipeline =>
    match hub.registry.get p.1, (hub.conns p.1).next with
    | none, _ => { hub with listening := .waiting op left pipeline }
    | some _, none => hub
    | some _, some answer =>
      let after := { hub.setConn p.1 (hub.conns p.1).advance with
        listening := .waiting op left pipeline }
      match answer with
      | .ok came => after.take op p.1 came
      | .error _ => after
  | _ => hub

/-- The loop takes up a new pipeline. -/
def adopt : Hub F :=
  match hub.broadcast with
  | none => hub
  | some pipeline => { hub with pipeline, broadcast := none }

end

end Hub

/-! ## Steps -/

inductive HubEvent (F : Type) where
  /-- A worker's router takes a frame. -/
  | route (id : String) (freeBlocks : ℕ)
  /-- A worker's serve loop takes a message. -/
  | serve (id : String) (handling : Handling)
  /-- A worker wants to leave. -/
  | leave (id : String)
  /-- A connection breaks. -/
  | lose (id : String) (why : FractureError)
  | alloc (seqId : ℕ)
  | forward (seqIds : List ℕ)
  | free (seqId : ℕ)
  | freeBestEffort (seqId : ℕ)
  /-- The running operation reads from a worker. -/
  | read (id : String)
  /-- The running allocation looks at an answer. -/
  | join (k : ℕ)
  | round (nonce : ℕ)
  /-- The listener accepts a worker. -/
  | accept (capabilities : WorkerCapabilities F) (kind : Registration) (handles : List ℕ)
  | await
  | ready
  | adopt

namespace Hub

/-- One step. What needs the registry happens only when it is free. -/
def step (cfg : CoordinatorConfig F) (maxMissed : ℕ) (hub : Hub F) : HubEvent F → Hub F
  | .route id freeBlocks => hub.setConn id ((hub.conns id).route freeBlocks)
  | .serve id handling => hub.setConn id ((hub.conns id).serve handling)
  | .leave id => hub.setConn id (hub.conns id).leave
  | .lose id why => hub.setConn id ((hub.conns id).lose why)
  | .alloc seqId => if hub.locked then hub else hub.allocCache seqId
  | .forward seqIds => if hub.locked then hub else hub.batchedForward seqIds
  | .free seqId => if hub.locked then hub else hub.freeCache seqId
  | .freeBestEffort seqId => if hub.locked then hub else hub.freeCacheBestEffort seqId
  | .read id => hub.read id
  | .join k => hub.join k
  | .round nonce => if hub.locked then hub else hub.round maxMissed nonce
  | .accept capabilities kind handles =>
    -- the listener accepts no one while it waits for answers
    match hub.listening with
    | .idle => if hub.locked then hub else hub.accept cfg capabilities kind handles
    | _ => hub
  | .await => if hub.locked then hub else hub.await
  | .ready => hub.ready
  | .adopt =>
    match hub.task with
    | .idle => hub.adopt
    | _ => hub

end Hub

end Fracture
