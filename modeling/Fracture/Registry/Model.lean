import Fracture.Layers.Staffing

/-!
# The peer registry

The coordinator keeps an entry for every worker that has connected: what
it can do, the layers it was assigned and its health. No two entries are
of one worker. The order of the entries is the order in which the
registry's map is iterated.

Connections are not part of an entry here; what they carry is given where
it is read.
-/

namespace Fracture

variable {F : Type}

/-- Health status of a worker. -/
inductive WorkerStatus where
  | connected
  | ready
  | draining
  | pending
  | dead
deriving DecidableEq, Repr

/-- A registered worker. -/
structure WorkerEntry (F : Type) where
  capabilities : WorkerCapabilities F
  assignment : Option (LayerAssignment F)
  status : WorkerStatus
  freeBlocks : ℕ
deriving DecidableEq, Repr

namespace WorkerEntry

def nodeId (e : WorkerEntry F) : String := e.capabilities.nodeId

/-- The worker is ready and has layers. -/
def serves (e : WorkerEntry F) : Bool := e.status == .ready && e.assignment.isSome

/-- The first of the worker's layers. -/
def start (e : WorkerEntry F) : ℕ := (e.assignment.map fun a => a.layerRange.start).getD 0

end WorkerEntry

structure PeerRegistry (F : Type) where
  workers : List (WorkerEntry F)
  distinct : (workers.map (·.nodeId)).Nodup

namespace PeerRegistry

section

variable (reg : PeerRegistry F) (nodeId : String)

def new : PeerRegistry F := ⟨[], List.nodup_nil⟩

def get : Option (WorkerEntry F) :=
  reg.workers.find? fun e => e.nodeId == nodeId

def status : Option WorkerStatus :=
  (reg.get nodeId).map (·.status)

/-- Change the entry of a worker, if there is one. -/
def modify (change : WorkerEntry F → WorkerEntry F)
    (hsame : ∀ e, (change e).capabilities = e.capabilities) : PeerRegistry F where
  workers := reg.workers.map fun e => if e.nodeId = nodeId then change e else e
  distinct := by
    have hids : ∀ e : WorkerEntry F, (if e.nodeId = nodeId then change e else e).nodeId = e.nodeId := by
      intro e
      split
      · exact congrArg WorkerCapabilities.nodeId (hsame e)
      · rfl
    rw [List.map_map, Function.comp_def]
    simp only [hids]
    exact reg.distinct

/-- Put in an entry, in place of one of the same worker. -/
def insert (entry : WorkerEntry F) : PeerRegistry F where
  workers := (reg.workers.filter fun e => e.nodeId ≠ entry.nodeId) ++ [entry]
  distinct := by
    rw [List.map_append, List.map_singleton]
    refine List.nodup_append.2 ⟨reg.distinct.sublist (List.filter_sublist.map _),
      List.nodup_singleton _, fun a ha b hb hab => ?_⟩
    obtain ⟨e, he, rfl⟩ := List.mem_map.1 ha
    rw [List.mem_singleton.1 hb] at hab
    exact of_decide_eq_true (List.mem_filter.1 he).2 hab

end

/-- Register a worker that is not there, or is dead. -/
def register (reg : PeerRegistry F) (capabilities : WorkerCapabilities F) :
    Except Fault (PeerRegistry F) :=
  let nodeId := capabilities.nodeId
  match reg.status nodeId with
  | none | some .dead =>
    .ok (reg.insert { capabilities, assignment := none, status := .connected, freeBlocks := 0 })
  | some _ => err (.protocol s!"worker '{nodeId}' is already registered")

section

variable (reg : PeerRegistry F) (nodeId : String)

/-- Assign layers to a worker and mark it ready. -/
def assign (reg : PeerRegistry F) (nodeId : String) (assignment : LayerAssignment F) :
    Except Fault (PeerRegistry F) :=
  match reg.status nodeId with
  | none => err (.protocol s!"worker '{nodeId}' not found")
  | some .dead => err (.protocol s!"cannot assign layers to dead worker '{nodeId}'")
  | some _ =>
    .ok (reg.modify nodeId (fun e => { e with assignment := some assignment, status := .ready })
      fun _ => rfl)

def markDead : PeerRegistry F :=
  reg.modify nodeId (fun e => { e with status := .dead }) fun _ => rfl

/-- A ready worker intends to leave. -/
def markDraining : PeerRegistry F :=
  reg.modify nodeId (fun e => { e with status := if e.status = .ready then .draining else e.status })
    fun _ => rfl

/-- A new worker waits to join. -/
def markPending : PeerRegistry F :=
  reg.modify nodeId (fun e => { e with status := .pending }) fun _ => rfl

def recordHeartbeat (freeBlocks : ℕ) : PeerRegistry F :=
  reg.modify nodeId (fun e => { e with freeBlocks }) fun _ => rfl

/-- The workers of a status. -/
def withStatus (status : WorkerStatus) : List String :=
  (reg.workers.filter fun e => e.status == status).map (·.nodeId)

def pendingWorkers : List String := reg.withStatus .pending

/-- The entries of workers that serve. -/
def serving : List (WorkerEntry F) := reg.workers.filter (·.serves)

/-- What the worker with the least free blocks has; 0 without workers. -/
def minFreeBlocks : ℕ := (reg.serving.map (·.freeBlocks)).min?.getD 0

def allCapabilities : List (WorkerCapabilities F) :=
  (reg.workers.filter fun e => e.status != .dead).map (·.capabilities)

/-- The workers that serve, by their first layer. -/
def pipelineOrder : List String :=
  (reg.serving.insertionSort fun a b => a.start ≤ b.start).map (·.nodeId)

/-- The workers whose connections are read for heartbeats. -/
def readerHandles : List String := reg.serving.map (·.nodeId)

end

/-! ## Looking up -/

variable {reg : PeerRegistry F} {nodeId : String} {e : WorkerEntry F}

theorem get_eq_some : reg.get nodeId = some e ↔ e ∈ reg.workers ∧ e.nodeId = nodeId := by
  constructor
  · intro h
    exact ⟨List.mem_of_find?_eq_some h, by simpa using List.find?_some h⟩
  · rintro ⟨hmem, rfl⟩
    cases hget : reg.get e.nodeId with
    | none =>
      have hnone := List.find?_eq_none.1 hget e hmem
      simp at hnone
    | some e' =>
      have he' : e'.nodeId = e.nodeId := by simpa using List.find?_some hget
      rw [List.inj_on_of_nodup_map reg.distinct (List.mem_of_find?_eq_some hget) hmem he']

theorem get_of_mem (h : e ∈ reg.workers) : reg.get e.nodeId = some e :=
  get_eq_some.2 ⟨h, rfl⟩

theorem status_eq_some {s : WorkerStatus} :
    reg.status nodeId = some s ↔ ∃ e ∈ reg.workers, e.nodeId = nodeId ∧ e.status = s := by
  unfold status
  rw [Option.map_eq_some_iff]
  simp only [get_eq_some, and_assoc]

section

variable {change : WorkerEntry F → WorkerEntry F}
  {hsame : ∀ e, (change e).capabilities = e.capabilities}

theorem get_modify_self :
    (reg.modify nodeId change hsame).get nodeId = (reg.get nodeId).map change := by
  cases hget : reg.get nodeId with
  | none =>
    rw [Option.map_none]
    refine List.find?_eq_none.2 fun e he => ?_
    obtain ⟨e', he', rfl⟩ := List.mem_map.1 he
    have hne : e'.nodeId ≠ nodeId := by simpa using List.find?_eq_none.1 hget e' he'
    simpa [if_neg hne] using hne
  | some e =>
    obtain ⟨hmem, hid⟩ := get_eq_some.1 hget
    refine get_eq_some.2 ⟨List.mem_map.2 ⟨e, hmem, if_pos hid⟩, ?_⟩
    rw [WorkerEntry.nodeId, hsame]
    exact hid

theorem get_modify_of_ne {other : String} (hne : other ≠ nodeId) :
    (reg.modify nodeId change hsame).get other = reg.get other := by
  cases hget : reg.get other with
  | none =>
    refine List.find?_eq_none.2 fun e he => ?_
    obtain ⟨e', he', rfl⟩ := List.mem_map.1 he
    have hother : e'.nodeId ≠ other := by simpa using List.find?_eq_none.1 hget e' he'
    split
    · simpa [WorkerEntry.nodeId, hsame] using hother
    · simpa using hother
  | some e =>
    obtain ⟨hmem, rfl⟩ := get_eq_some.1 hget
    exact get_eq_some.2 ⟨List.mem_map.2 ⟨e, hmem, if_neg hne⟩, rfl⟩

end

end PeerRegistry

end Fracture
