import Fracture.Common.Session
import Fracture.Distributed.Wire
import Fracture.Registry.Coordinator

/-!
# Frames between the coordinator and a worker

The coordinator has one connection to each worker, and everything goes
over it: requests and their answers, heartbeats and their
acknowledgements, and a worker's word that it wants to leave. In the
worker a router takes frames off the wire. It answers heartbeats itself
and leaves the rest to the serve loop, which takes one after the other.

Every request carries the number of the operation that sent it, and every
answer the request it is for. The code has neither.
-/

namespace Fracture

open Session

/-! ## Frames -/

/-- A frame to a worker. -/
inductive Request where
  | cacheAlloc (seqId : ℕ)
  | cacheFree (seqId : ℕ)
  | batchedForward (seqId : ℕ)
  | registerAck (layers : LayerRange)
  | reconfigure (layers : LayerRange)
  | heartbeat (nonce : ℕ)
deriving DecidableEq, Repr

namespace Request

def msgType : Request → MessageType
  | .cacheAlloc _ => .cacheAlloc
  | .cacheFree _ => .cacheFree
  | .batchedForward _ => .batchedForward
  | .registerAck _ => .registerAck
  | .reconfigure _ => .reconfigure
  | .heartbeat _ => .heartbeat

def layers : Request → Option LayerRange
  | .registerAck layers => some layers
  | .reconfigure layers => some layers
  | _ => none

/-- Whoever sends it waits for an answer. -/
def awaited : Request → Bool
  | .cacheFree _ => false
  | .heartbeat _ => false
  | _ => true

end Request

/-- What a worker returns of a batch. -/
inductive ForwardOutput where
  | logits
  | activations
deriving DecidableEq, Repr

/-- A frame from a worker. -/
inductive Reply where
  | cacheAllocAck (seqId : ℕ)
  | error (payload : ErrorPayload)
  | batchedForwardResult (output : ForwardOutput)
  | workerReady
  | heartbeatAck (nonce freeBlocks : ℕ)
  | leaveIntent
deriving DecidableEq, Repr

/-- A frame's type as a debug print shows it. -/
def Reply.debugType : Reply → String
  | .cacheAllocAck _ => "CacheAllocAck"
  | .error _ => "Error"
  | .batchedForwardResult _ => "BatchedForwardResult"
  | .workerReady => "WorkerReady"
  | .heartbeatAck _ _ => "HeartbeatAck"
  | .leaveIntent => "LeaveIntent"

/-- A request and the operation it is part of. -/
structure Sent where
  op : ℕ
  request : Request
deriving DecidableEq, Repr

/-- A frame that came back, and the request it answers. A worker's wish to
leave answers none. -/
structure Came where
  cause : Option Sent
  reply : Reply
deriving DecidableEq, Repr

namespace Came

def isHeartbeatAck (came : Came) : Bool :=
  match came.reply with
  | .heartbeatAck _ _ => true
  | _ => false

end Came

/-! ## The worker -/

def WorkerProcess.isServing : WorkerProcess → Bool
  | .serving _ => true
  | _ => false

/-- How handling a message goes: what fails, if anything does, and what is
computed. -/
structure Handling where
  fault : Option String
  /-- The paged cache is out of blocks, not the contiguous one. -/
  paged : Bool
  output : ForwardOutput
  /-- How a connection ends for the other side. -/
  closed : FractureError

/-- A connection: its frames, the process at its end with the sequences it
has caches for, and why it is broken if it is. -/
structure Conn where
  link : Channel Sent Came
  process : WorkerProcess
  handles : List ℕ
  fault : Option FractureError

namespace Conn

/-- The connection of a worker that is serving. -/
def serving (layers : Option LayerRange) : Conn :=
  { link := .fresh, process := .serving layers, handles := [], fault := none }

/-- The connection of a worker that registers with some caches. -/
def registering (kind : Registration) (handles : List ℕ) : Conn :=
  { link := .fresh, process := .registering kind, handles, fault := none }

/-- A frame goes out if the connection is up. -/
def post (c : Conn) (frame : Sent) : Conn :=
  match c.fault with
  | none => { c with link := c.link.send frame }
  | some _ => c

/-- The connection breaks. -/
def lose (c : Conn) (why : FractureError) : Conn :=
  match c.fault with
  | none => { c with link := c.link.cut, fault := some why }
  | some _ => c

/-- The router takes the next frame off the wire. -/
def route (c : Conn) (freeBlocks : ℕ) : Conn :=
  match c.fault, c.link.wire with
  | none, frame :: rest =>
    match frame.request with
    | .heartbeat nonce =>
      -- before the worker serves, nobody reads heartbeats
      if c.process.isServing then
        { c with link := { c.link with wire := rest }.reply
                  { cause := some frame, reply := .heartbeatAck nonce freeBlocks } }
      else c
    | _ => { c with link := { c.link with wire := rest, queue := c.link.queue ++ [frame] } }
  | _, _ => c

/-- What the serve loop makes of a message: its answer, and the sequences
with caches. -/
def handle (h : Handling) (handles : List ℕ) : Request → Option Reply × List ℕ
  | .cacheAlloc seqId =>
    if seqId ∈ handles then
      (some (.error { errorCode := .invalidSequence,
                      message := s!"CacheAlloc for seq {seqId}: cache already allocated" }), handles)
    else
      match h.fault with
      | none => (some (.cacheAllocAck seqId), seqId :: handles)
      | some why =>
        let failed := if h.paged then "failed (paged)" else "failed"
        (some (.error { errorCode := .outOfMemory,
                        message := s!"CacheAlloc for seq {seqId} {failed}: {why}" }), handles)
  | .cacheFree seqId =>
    if seqId ∈ handles then (none, handles.erase seqId)
    else
      (some (.error { errorCode := .invalidSequence,
                      message := s!"CacheFree for seq {seqId}: no cache allocated" }), handles)
  | .batchedForward _ =>
    match h.fault with
    | none => (some (.batchedForwardResult h.output), handles)
    | some why => (some (.error { errorCode := .internal, message := why }), handles)
  | .reconfigure _ => (some .workerReady, [])
  | .registerAck _ =>
    (some (.error { errorCode := .protocolViolation,
                    message := "unexpected message type: RegisterAck" }), handles)
  | .heartbeat _ => (none, handles)

/-- An answer, if there is one, goes back. -/
def respond (c : Conn) (frame : Sent) : Option Reply → Conn
  | none => c
  | some reply => { c with link := c.link.reply { cause := some frame, reply } }

/-- The worker takes its next message. One that is not serving yet takes
nothing but the answer to its registration, and may end over it. -/
def serve (c : Conn) (h : Handling) : Conn :=
  match c.fault, c.link.queue with
  | none, frame :: rest =>
    let c' := { c with link := { c.link with queue := rest } }
    let process := (c.process.receive frame.request.msgType frame.request.layers).1
    if c.process.isServing then
      let (answer, handles) := handle h c.handles frame.request
      { c' with process, handles }.respond frame answer
    else
      match process with
      | .exited => { c' with process }.lose h.closed
      | .serving _ =>
        let handles := if frame.request.msgType = .reconfigure then [] else c.handles
        { c' with process, handles }.respond frame (some .workerReady)
      | _ => { c' with process }
  | _, _ => c

/-- The worker says that it wants to leave. -/
def leave (c : Conn) : Conn :=
  match c.fault with
  | none =>
    if c.process.isServing then
      { c with link := c.link.reply { cause := none, reply := .leaveIntent } }
    else c
  | some _ => c

/-- The next frame, or why there will be none. `none` while one may still
come. -/
def next (c : Conn) : Option (Except FractureError Came) :=
  match c.link.replies, c.fault with
  | came :: _, _ => some (.ok came)
  | [], some why => some (.error why)
  | [], none => none

/-- After the next frame is read. -/
def advance (c : Conn) : Conn := { c with link := { c.link with replies := c.link.replies.tail } }

end Conn

end Fracture
