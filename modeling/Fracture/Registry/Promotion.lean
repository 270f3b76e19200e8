import Fracture.Registry.Joining

/-!
# The state of a promoted coordinator

A worker that has won an election waits for its peers to register with it,
schedules the layers over them and itself, sends every scheduled peer
`RegisterAck` and builds the pipeline. Two things are not brought in line
with the new schedule. A peer that registers again keeps the layers it
has, since `RegisterAck` does not make it load others. And the promoted
worker has no connection to itself: it gets no entry in the registry, and
goes on with its own layers.
-/

namespace Fracture

open Effect Layers

variable {F : Type}

/-- The layers a process has loaded. -/
def WorkerProcess.loaded : WorkerProcess → Option LayerRange
  | .standby loaded => loaded
  | .serving loaded => loaded
  | .awaitingAck => none
  | .exited => none

/-- What the listener finds on its next connection. -/
inductive Arrival (F : Type) where
  | reRegister (capabilities : WorkerCapabilities F) (current : Option LayerRange)
  /-- A `ReRegister` that cannot be read. -/
  | malformed (e : FractureError)
  /-- Another frame, or none: the connection is dropped. -/
  | dropped
deriving Repr

namespace Coordinator

open PeerRegistry

variable (f : F32 F) (links : String → Link) (modelConfig : ModelConfig) (maxSeqLen : ℕ)

/-- The promoted worker before any peer has come. -/
def promoted (selfNodeId : String) (selfLoaded : Option LayerRange) : Coordinator F where
  registry := .new
  pipelineOrder := []
  published := none
  processes := fun id => if id = selfNodeId then .serving selfLoaded else .exited
  sent := []

/-- A peer registers again. -/
def accept (capabilities : WorkerCapabilities F) (current : Option LayerRange)
    (st : Coordinator F) : Except Fault (Coordinator F) := do
  let registry ← st.registry.register capabilities
  return { st with registry, processes :=
    Function.update st.processes capabilities.nodeId (.registering (.reRegister current)) }

/-- The peers that come before the deadline, until all that are expected
are there. -/
def acceptPeers : List (Arrival F) → ℕ → Coordinator F → Except Fault (Coordinator F)
  -- the deadline
  | [], _, st => .ok st
  | _ :: _, 0, st => .ok st
  | .reRegister capabilities current :: rest, n + 1, st => do
    acceptPeers rest n (← st.accept capabilities current)
  | .malformed e :: _, _ + 1, _ => err e
  | .dropped :: rest, n + 1, st => acceptPeers rest (n + 1) st

/-- What the scheduler is asked: the peers and the promoted worker. -/
def promotionInput (selfCaps : WorkerCapabilities F) (reg : PeerRegistry F) : SchedulerInput F :=
  { modelConfig, workers := reg.allCapabilities ++ [selfCaps], coordinatorCompute := none,
    mode := .auto, maxSeqLen, hopLatencyMs := f.ofNat 2 }

/-- `RegisterAck` to every scheduled peer that can be reached. -/
def ackFrames (peers : List (LayerAssignment F)) : List SentFrame :=
  (peers.filter fun a => reachable links a.nodeId).map fun a =>
    { nodeId := a.nodeId, msgType := .registerAck, layers := some a.layerRange }

/-- The peers that have registered, and the pipeline over them and the
promoted worker. What is read from them after the frames is only logged.
The registry's map is iterated in the given order, if that is one of its
entries. -/
def reconstructState [DecidableEq F] (selfNodeId : String) (selfCaps : WorkerCapabilities F)
    (expectedPeers : ℕ) (arrivals : List (Arrival F)) (order : List (WorkerEntry F))
    (st : Coordinator F) : Except Fault (RebalanceResult F × Coordinator F) := do
  let gathered ← acceptPeers arrivals expectedPeers st
  let st := gathered.rehash order
  let result ← schedule f (promotionInput f modelConfig maxSeqLen selfCaps st.registry)
  let peers := result.assignments.filter fun a => a.nodeId ≠ selfNodeId
  let st := { st with registry := assignAll peers st.registry }.emit (ackFrames links peers)
  let pipeline ← DistributedPipeline.new result.assignments modelConfig.hiddenSize
  return ({ pipeline, assignments := result.assignments },
    { st with pipelineOrder := pipeline.pipelineOrder })

/-- The layers a worker has by its registration, if that is accepted. -/
def reported : List (Arrival F) → ℕ → String → Option LayerRange
  | .reRegister capabilities current :: rest, n + 1, id =>
    if capabilities.nodeId = id then current else reported rest n id
  | .dropped :: rest, n + 1, id => reported rest (n + 1) id
  | _, _, _ => none

/-! ## Gathering the peers -/

variable {f links modelConfig maxSeqLen}
variable {st st' : Coordinator F} {w : String}

variable {capabilities : WorkerCapabilities F} {current : Option LayerRange}

/-- A peer is accepted if it was not there before, and waits then. -/
theorem accept_eq_ok
    (hconnected : ∀ s, st.registry.status capabilities.nodeId = some s → s = .connected)
    (h : st.accept capabilities current = .ok st') :
    st.registry.get capabilities.nodeId = none ∧
      st'.registry = st.registry.insert (freshEntry capabilities) ∧
      st'.processes = Function.update st.processes capabilities.nodeId (.standby current) := by
  obtain ⟨registry, hregister, hst⟩ := except_bind_eq_ok.1 h
  cases hst
  have hnone : st.registry.get capabilities.nodeId = none := by
    cases hget : st.registry.get capabilities.nodeId with
    | none => rfl
    | some e =>
      -- a worker that is there is connected, and is refused
      have hstatus : st.registry.status capabilities.nodeId = some e.status := by
        rw [PeerRegistry.status, hget]
        rfl
      have hconn := hconnected _ hstatus
      unfold PeerRegistry.register at hregister
      dsimp only at hregister
      rw [hstatus, hconn] at hregister
      cases hregister
  rw [register_new hnone] at hregister
  cases hregister
  exact ⟨hnone, rfl, rfl⟩

/-- Every worker of the registry is connected, and no process waits for a
first acknowledgement. -/
structure Gathering (st : Coordinator F) : Prop where
  connected : ∀ id s, st.registry.status id = some s → s = .connected
  settled : ∀ id, st.processes id ≠ .awaitingAck

theorem gathering_promoted (selfNodeId : String) (selfLoaded : Option LayerRange) :
    (promoted selfNodeId selfLoaded : Coordinator F).Gathering where
  connected := by
    intro id s hs
    cases hs
  settled := by
    intro id hid
    unfold promoted at hid
    dsimp only at hid
    split at hid
    · cases hid
    · cases hid

theorem Gathering.accept (hst : st.Gathering) (h : st.accept capabilities current = .ok st') :
    st'.Gathering := by
  obtain ⟨-, hregistry, hprocesses⟩ := accept_eq_ok (hst.connected _) h
  constructor
  · intro id s hs
    rw [hregistry] at hs
    by_cases hid : id = capabilities.nodeId
    · subst hid
      have hget : (st.registry.insert (freshEntry capabilities)).get
        capabilities.nodeId = some (freshEntry capabilities) :=
        get_insert_self
      rw [PeerRegistry.status, hget] at hs
      exact (Option.some_inj.1 hs).symm
    · have hsame : (st.registry.insert (freshEntry capabilities)).get id =
        st.registry.get id := get_insert_of_ne hid
      rw [status_of_get_eq hsame] at hs
      exact hst.connected id s hs
  · intro id
    rw [hprocesses]
    by_cases hid : id = capabilities.nodeId
    · subst hid
      rw [Function.update_self]
      intro hawait
      cases hawait
    · rw [Function.update_of_ne hid]
      exact hst.settled id

variable {arrivals : List (Arrival F)} {n : ℕ}

theorem Gathering.acceptPeers (hst : st.Gathering) (h : acceptPeers arrivals n st = .ok st') :
    st'.Gathering := by
  induction arrivals, n, st using Coordinator.acceptPeers.induct with
  | case1 n st =>
    cases h
    exact hst
  | case2 arrival rest st =>
    cases h
    exact hst
  | case3 capabilities current rest n st ih =>
    obtain ⟨mid, hmid, hrest⟩ := except_bind_eq_ok.1 h
    exact ih mid (hst.accept hmid) hrest
  | case4 e rest n st => cases h
  | case5 rest n st ih => exact ih hst h

/-- **A peer has the layers it reported**, and one that was there before
what it had. -/
theorem process_of_acceptPeers (hst : st.Gathering) (h : acceptPeers arrivals n st = .ok st')
    (hw : st'.registry.get w ≠ none) :
    st'.processes w = if st.registry.get w = none then .standby (reported arrivals n w)
      else st.processes w := by
  induction arrivals, n, st using Coordinator.acceptPeers.induct with
  | case1 n st =>
    cases h
    rw [if_neg hw]
  | case2 arrival rest st =>
    cases h
    rw [if_neg hw]
  | case3 capabilities current rest n st ih =>
    obtain ⟨mid, hmid, hrest⟩ := except_bind_eq_ok.1 h
    obtain ⟨hnone, hregistry, hprocesses⟩ := accept_eq_ok (hst.connected _) hmid
    rw [ih mid (hst.accept hmid) hrest, hregistry, hprocesses, reported]
    by_cases hself : capabilities.nodeId = w
    · subst hself
      have hget : (st.registry.insert (freshEntry capabilities)).get capabilities.nodeId ≠ none :=
        Option.ne_none_iff_exists'.2 ⟨_, get_insert_self⟩
      rw [if_neg hget, if_pos hnone, if_pos rfl, Function.update_self]
    · have hget : (st.registry.insert (freshEntry capabilities)).get w = st.registry.get w :=
        get_insert_of_ne (Ne.symm hself)
      rw [hget, if_neg hself, Function.update_of_ne (Ne.symm hself)]
  | case4 e rest n st => cases h
  | case5 rest n st ih => exact ih hst h

/-- Another order of the entries is nothing to a worker. -/
theorem get_rehash [DecidableEq F] (order : List (WorkerEntry F)) :
    (st.rehash order).registry.get w = st.registry.get w ∧
      (st.rehash order).processes = st.processes := by
  unfold rehash
  split
  · next hperm => exact ⟨get_of_perm hperm, rfl⟩
  · exact ⟨rfl, rfl⟩

/-! ## After the schedule -/

/-- An acknowledgement changes nothing about the layers of a process that
has registered again. -/
theorem loaded_receive {p : WorkerProcess} (layers : Option LayerRange) (h : p ≠ .awaitingAck) :
    (p.receive .registerAck layers).1 ≠ .awaitingAck ∧
      (p.receive .registerAck layers).1.loaded = p.loaded := by
  cases p with
  | awaitingAck => exact absurd rfl h
  | standby loaded => exact ⟨WorkerProcess.noConfusion, rfl⟩
  | serving loaded => exact ⟨WorkerProcess.noConfusion, rfl⟩
  | exited => exact ⟨WorkerProcess.noConfusion, rfl⟩

theorem loaded_deliver {processes : String → WorkerProcess} {frames : List SentFrame}
    (hprocesses : ∀ id, processes id ≠ .awaitingAck)
    (hframes : ∀ frame ∈ frames, frame.msgType = .registerAck) :
    (WorkerProcess.deliver processes frames w).loaded = (processes w).loaded := by
  induction frames generalizing processes with
  | nil => rfl
  | cons frame frames ih =>
    obtain ⟨hack, hrest⟩ := List.forall_mem_cons.1 hframes
    have hreceive := loaded_receive frame.layers (hprocesses frame.nodeId)
    rw [← hack] at hreceive
    have hnext : ∀ id, Function.update processes frame.nodeId
          ((processes frame.nodeId).receive frame.msgType frame.layers).1 id ≠ .awaitingAck ∧
        (Function.update processes frame.nodeId
          ((processes frame.nodeId).receive frame.msgType frame.layers).1 id).loaded =
        (processes id).loaded := by
      intro id
      by_cases hid : id = frame.nodeId
      · subst hid
        rw [Function.update_self]
        exact hreceive
      · rw [Function.update_of_ne hid]
        exact ⟨hprocesses id, rfl⟩
    exact (ih (fun id => (hnext id).1) hrest).trans (hnext w).2

theorem msgType_of_mem_ackFrames {peers : List (LayerAssignment F)} :
    ∀ frame ∈ ackFrames links peers, frame.msgType = .registerAck :=
  List.forall_mem_map.2 fun _ _ => rfl

variable {selfCaps : WorkerCapabilities F}

/-- A reconstruction that succeeds: the peers, their schedule with the
promoted worker, and what becomes of both. -/
theorem reconstructState_eq_ok [DecidableEq F] {selfNodeId : String} {expectedPeers : ℕ}
    {order : List (WorkerEntry F)} {res : RebalanceResult F}
    (h : reconstructState f links modelConfig maxSeqLen selfNodeId selfCaps expectedPeers arrivals
      order st = .ok (res, st')) :
    ∃ gathered r, acceptPeers arrivals expectedPeers st = .ok gathered ∧
      schedule f (promotionInput f modelConfig maxSeqLen selfCaps
        (gathered.rehash order).registry) = .ok r ∧
      res.assignments = r.assignments ∧
      res.pipeline.pipelineOrder = r.assignments.map (·.nodeId) ∧
      st'.registry = assignAll (r.assignments.filter fun a => a.nodeId ≠ selfNodeId)
        (gathered.rehash order).registry ∧
      st'.processes = WorkerProcess.deliver gathered.processes
        (ackFrames links (r.assignments.filter fun a => a.nodeId ≠ selfNodeId)) := by
  obtain ⟨gathered, hgathered, h⟩ := except_bind_eq_ok.1 h
  obtain ⟨r, hschedule, h⟩ := except_bind_eq_ok.1 h
  obtain ⟨pipeline, hpipeline, h⟩ := except_bind_eq_ok.1 h
  cases h
  have hprocesses : (gathered.rehash order).processes = gathered.processes :=
    (get_rehash (w := "") order).2
  exact ⟨gathered, r, hgathered, hschedule, rfl, (DistributedPipeline.new_eq_ok hpipeline).1, rfl,
    congrArg (WorkerProcess.deliver · _) hprocesses⟩

/-- A scheduled node is the promoted worker or a peer. -/
theorem get_of_scheduled {reg : PeerRegistry F} {r : SchedulerResult F}
    (h : schedule f (promotionInput f modelConfig maxSeqLen selfCaps reg) = .ok r)
    {a : LayerAssignment F} (ha : a ∈ r.assignments) (hself : a.nodeId ≠ selfCaps.nodeId) :
    ∃ s, reg.status a.nodeId = some s ∧ s ≠ .dead := by
  obtain ⟨cs, counts, hplan⟩ := exists_planned h
  have hid : a.nodeId ∈ cs.map (·.nodeId) := hplan.map_nodeId ▸ List.mem_map_of_mem ha
  obtain ⟨c, hc, hca⟩ := List.mem_map.1 hid
  have hknown : c ∈ reg.allCapabilities ++ [selfCaps] := hplan.known c hc
  rcases List.mem_append.1 hknown with hpeer | hown
  · obtain ⟨e, he, rfl⟩ := List.mem_map.1 hpeer
    obtain ⟨hmem, halive⟩ := List.mem_filter.1 he
    exact ⟨e.status, status_eq_some.2 ⟨e, hmem, hca, rfl⟩, by simpa using halive⟩
  · rw [List.mem_singleton.1 hown] at hca
    exact absurd hca.symm hself

/-- **The pipeline of a promoted coordinator** has a ready entry for every
node, with the layers that are loaded there, exactly when the schedule
over the peers and the promoted worker leaves the latter out and gives
every peer the layers it reported. -/
theorem reconstructState_loaded_iff [DecidableEq F] (f : F32 F) (links : String → Link)
    (modelConfig : ModelConfig) (maxSeqLen : ℕ) (selfCaps : WorkerCapabilities F)
    (selfLoaded : Option LayerRange) (expectedPeers : ℕ) (arrivals : List (Arrival F))
    (order : List (WorkerEntry F)) {res : RebalanceResult F} {st' : Coordinator F}
    (h : reconstructState f links modelConfig maxSeqLen selfCaps.nodeId selfCaps expectedPeers
      arrivals order (promoted selfCaps.nodeId selfLoaded) = .ok (res, st')) :
    res.pipeline.pipelineOrder = res.assignments.map (·.nodeId) ∧
    ((∀ a ∈ res.assignments, st'.registry.status a.nodeId = some .ready ∧
        (st'.processes a.nodeId).loaded = some a.layerRange) ↔
      ∀ gathered r,
        acceptPeers arrivals expectedPeers (promoted selfCaps.nodeId selfLoaded) = .ok gathered →
        schedule f (promotionInput f modelConfig maxSeqLen selfCaps
          (gathered.rehash order).registry) = .ok r →
        ∀ a ∈ r.assignments, a.nodeId ≠ selfCaps.nodeId ∧
          reported arrivals expectedPeers a.nodeId = some a.layerRange) := by
  obtain ⟨gathered, r, hgathered, hschedule, hassignments, horder, hregistry, hprocesses⟩ :=
    reconstructState_eq_ok h
  rw [hassignments, horder]
  refine ⟨rfl, ?_⟩
  have hstart := gathering_promoted (F := F) selfCaps.nodeId selfLoaded
  have hgathering := hstart.acceptPeers hgathered
  have hloaded : ∀ id, (st'.processes id).loaded = (gathered.processes id).loaded := by
    intro id
    rw [hprocesses]
    exact loaded_deliver hgathering.settled msgType_of_mem_ackFrames
  -- a peer of the schedule becomes ready, with the layers it came with
  have hpeer : ∀ a ∈ r.assignments, a.nodeId ≠ selfCaps.nodeId →
      st'.registry.status a.nodeId = some .ready ∧
      (st'.processes a.nodeId).loaded = reported arrivals expectedPeers a.nodeId := by
    intro a ha hself
    obtain ⟨s, hs, halive⟩ := get_of_scheduled hschedule ha hself
    have hin : a.nodeId ∈ (r.assignments.filter fun a => a.nodeId ≠ selfCaps.nodeId).map
        (·.nodeId) :=
      List.mem_map_of_mem (List.mem_filter.2 ⟨ha, decide_eq_true hself⟩)
    have hget : gathered.registry.get a.nodeId ≠ none := by
      intro hnone
      rw [PeerRegistry.status, (get_rehash order).1, hnone] at hs
      cases hs
    have hprocess := process_of_acceptPeers hstart hgathered hget
    rw [if_pos (by rfl)] at hprocess
    rw [hregistry, hloaded, hprocess]
    exact ⟨status_assignAll hs halive hin, rfl⟩
  -- the promoted worker has no entry that could be ready
  have hown : ∀ a ∈ r.assignments, st'.registry.status a.nodeId = some .ready →
      a.nodeId ≠ selfCaps.nodeId := by
    intro a _ hready hself
    have hout : a.nodeId ∉ (r.assignments.filter fun a => a.nodeId ≠ selfCaps.nodeId).map
        (·.nodeId) := by
      intro hin
      obtain ⟨b, hb, hba⟩ := List.mem_map.1 hin
      exact of_decide_eq_true (List.mem_filter.1 hb).2 (hba.trans hself)
    rw [hregistry, status_assignAll_of_notMem hout,
      status_of_get_eq (get_rehash order).1] at hready
    cases hgathering.connected _ _ hready
  constructor
  · intro hall gathered' r' hgathered' hschedule' a ha
    cases hgathered.symm.trans hgathered'
    cases hschedule.symm.trans hschedule'
    obtain ⟨hready, hrange⟩ := hall a ha
    have hself := hown a ha hready
    exact ⟨hself, (hpeer a ha hself).2.symm.trans hrange⟩
  · intro hall a ha
    obtain ⟨hself, hrange⟩ := hall gathered r hgathered hschedule a ha
    obtain ⟨hready, hreported⟩ := hpeer a ha hself
    exact ⟨hready, hreported.trans hrange⟩

/-- The peer that had the last layers gets the first, and keeps the last;
the promoted worker is in the pipeline and not in the registry. -/
theorem promoted_out_of_step :
    (reconstructState F32.exact (fun _ => answering) fourLayers 64 "w2" (ampleWorker "w2") 1
      [.reRegister (ampleWorker "w1") (some ⟨2, 4⟩)] []
      (promoted "w2" (some ⟨0, 2⟩))).toOption.map (fun p =>
        (p.1.assignments.map fun a => (a.nodeId, a.layerRange, p.2.registry.status a.nodeId,
          (p.2.processes a.nodeId).loaded))) =
      some [("w1", ⟨0, 2⟩, some .ready, some ⟨2, 4⟩), ("w2", ⟨2, 4⟩, none, some ⟨0, 2⟩)] := by
  decide +kernel

def slowSelf : WorkerCapabilities ℚ := ⟨"w3", 10000, 100, 100⟩

/-- Two peers with half of the layers each. -/
def halves : List (Arrival ℚ) :=
  [.reRegister (ampleWorker "w1") (some ⟨0, 2⟩), .reRegister (ampleWorker "w2") (some ⟨2, 4⟩)]

theorem reconstructState_loaded_iff_slowSelf :
    ∃ res st', reconstructState F32.exact (fun _ => answering) fourLayers 64 "w3" slowSelf 2 halves
        [] (promoted "w3" none) = .ok (res, st') ∧
      res.pipeline.pipelineOrder = ["w1", "w2"] ∧
      ((∀ a ∈ res.assignments, st'.registry.status a.nodeId = some .ready ∧
          (st'.processes a.nodeId).loaded = some a.layerRange) ↔
        ∀ gathered r, acceptPeers halves 2 (promoted "w3" none) = .ok gathered →
          schedule F32.exact (promotionInput F32.exact fourLayers 64 slowSelf
            (gathered.rehash []).registry) = .ok r →
          ∀ a ∈ r.assignments, a.nodeId ≠ "w3" ∧
            reported halves 2 a.nodeId = some a.layerRange) := by
  have horder : (reconstructState F32.exact (fun _ => answering) fourLayers 64 "w3" slowSelf 2
      halves [] (promoted "w3" none)).toOption.map (fun p => p.1.pipeline.pipelineOrder) =
      some ["w1", "w2"] := by
    decide +kernel
  obtain ⟨⟨res, st'⟩, h, hids⟩ := Option.map_eq_some_iff.1 horder
  have hok := except_toOption_eq_some.1 h
  exact ⟨res, st', hok, hids, (reconstructState_loaded_iff F32.exact (fun _ => answering)
    fourLayers 64 slowSelf none 2 halves [] hok).2⟩

end Coordinator

end Fracture
