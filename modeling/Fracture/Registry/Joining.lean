import Fracture.Registry.Draining

/-!
# Workers that join

A worker that registers while a pipeline runs waits as pending until a
rebalance schedules it. Nothing is sent to it before. If it is a fresh
process it waits for `RegisterAck`; but a rebalance sends `Reconfigure` to
everyone it schedules, and a fresh process ends on that. A process that
has registered with `ReRegister` takes it.
-/

namespace Fracture

open Effect Layers Runs

variable {F : Type}

/-! ## Workers stay registered -/

namespace PeerRegistry

variable {reg reg' : PeerRegistry F} {w nodeId : String}

/-- The registry has an entry of the worker. -/
def Known (reg : PeerRegistry F) (w : String) : Prop := reg.get w ≠ none

theorem known_iff : reg.Known w ↔ reg.status w ≠ none := by
  rw [Known, PeerRegistry.status, Ne, Ne, Option.map_eq_none_iff]

theorem Known.modify {change : WorkerEntry F → WorkerEntry F}
    (h : reg.Known w) (hsame : ∀ e, (change e).capabilities = e.capabilities) :
    (reg.modify nodeId change hsame).Known w := by
  unfold Known at h ⊢
  by_cases hself : w = nodeId
  · subst hself
    rwa [get_modify_self, Ne, Option.map_eq_none_iff]
  · rwa [get_modify_of_ne hself]

theorem Known.rejoin {capabilities : WorkerCapabilities F} (h : reg.Known w) :
    (reg.rejoin capabilities).Known w := by
  unfold Known at h ⊢
  by_cases hself : w = capabilities.nodeId
  · subst hself
    have hentry : (reg.rejoin capabilities).get capabilities.nodeId =
      some (freshEntry capabilities) := get_insert_self
    rw [hentry]
    exact Option.some_ne_none _
  · rwa [get_rejoin_of_ne hself]

end PeerRegistry

namespace Coordinator

open PeerRegistry

variable {cfg : CoordinatorConfig F} {links : String → Link} {skip : List String}
  {st : Coordinator F} {w : String} {kind : Registration} {nodeId : String}
  {capabilities : WorkerCapabilities F}

/-- A registration, of the worker itself if it was known or of another. -/
theorem untouched_join_of_pending (hknown : st.registry.Known w)
    (h : (st.join cfg links capabilities kind).registry.status w = some .pending) :
    Untouched w st (st.join cfg links capabilities kind) := by
  cases hget : st.registry.get capabilities.nodeId with
  | none =>
    refine untouched_join_new hget ?_
    rintro rfl
    exact hknown hget
  | some e =>
    rw [join_known hget] at h ⊢
    have hreconnected := handled_reconnect.untouched h
    rw [hreconnected.status] at h
    -- a worker that has registered again is not pending
    have hne : w ≠ capabilities.nodeId := by
      rintro rfl
      rw [status_rejoined] at h
      cases h
    exact (untouched_rejoined hne).trans hreconnected

/-! ## What the steps keep -/

theorem Handled.known {st' : Coordinator F} (h : Handled w st st') (hknown : st.registry.Known w) :
    st'.registry.Known w := by
  rw [known_iff] at hknown ⊢
  rcases h.status with hsame | hready | hdead
  · rwa [hsame]
  · simp [hready]
  · simp [hdead]

/-- The workers of the loop's pipeline and of the published one. -/
def members (st : Coordinator F) : List String := st.pipelineOrder ++ st.published.getD []

/-- The workers of the pipelines are registered, and none is pending. -/
def Sane (st : Coordinator F) : Prop :=
  ∀ id ∈ st.members, st.registry.Known id ∧ st.registry.status id ≠ some .pending

/-- The pipeline after a rebalance is the one before or the schedule's. -/
theorem pipelineOrder_rebalance :
    (st.rebalance cfg links skip).pipelineOrder = st.pipelineOrder ∨
      ∃ r, rebalanceSchedule cfg skip st.registry = .ok r ∧
        (st.rebalance cfg links skip).pipelineOrder = r.assignments.map (·.nodeId) := by
  unfold rebalance
  dsimp only
  split
  · next res registry h =>
    obtain ⟨r, hschedule, hres, hpipeline, -⟩ := forcedRebalance_eq_ok h
    obtain ⟨r', hr⟩ := exists_schedule h
    obtain rfl := Except.ok.inj ((rebalanceSchedule_eq_ok hr).2.1.symm.trans hschedule)
    refine .inr ⟨r', hr, ?_⟩
    rw [← hres]
    exact (DistributedPipeline.new_eq_ok hpipeline).1
  · exact .inl rfl

/-- The workers that are new in a pipeline are ready, or dead. -/
def Renewed (st st' : Coordinator F) : Prop :=
  ∀ id ∈ st'.members, id ∈ st.members ∨
    st'.registry.status id = some .ready ∨ st'.registry.status id = some .dead

theorem renewed_of_eq {st' : Coordinator F} (h : st'.members = st.members) : Renewed st st' :=
  fun _ hid => .inl (h ▸ hid)

theorem published_rebalance : (st.rebalance cfg links skip).published = st.published := by
  unfold rebalance
  dsimp only
  split <;> rfl

theorem renewed_rebalance : Renewed st (st.rebalance cfg links skip) := by
  intro id hid
  rw [members, published_rebalance, List.mem_append] at hid
  rcases pipelineOrder_rebalance with hsame | ⟨r, hr, horder⟩
  · rw [hsame] at hid
    exact .inl (List.mem_append.2 hid)
  · rw [horder] at hid
    exact hid.symm.imp (List.mem_append_right _) (status_rebalance hr)

theorem renewed_reconnect : Renewed st (st.reconnect cfg links nodeId kind) := by
  cases hr : rebalanceSchedule cfg [] st.registry with
  | error e => exact renewed_of_eq (by rw [reconnect_of_error hr])
  | ok r =>
    obtain ⟨published, hst, hsame | hnew⟩ := reconnect_of_ok links nodeId kind hr
    · exact renewed_of_eq (by rw [hst, hsame]; rfl)
    · intro id hid
      rw [hst, hnew] at hid
      exact (List.mem_append.1 hid).imp (List.mem_append_left _) fun hin =>
        .inl (status_reconnect hr hin)

theorem renewed_adopt : Renewed st st.adopt := by
  intro id hid
  rw [members, List.mem_append]
  rw [members, adopt, Option.getD_none, List.append_nil] at hid
  cases hnew : st.published with
  | none =>
    rw [hnew] at hid
    exact .inl (.inl hid)
  | some order =>
    rw [hnew] at hid
    exact .inl (.inr hid)

theorem known_join (h : st.registry.Known w) :
    (st.join cfg links capabilities kind).registry.Known w := by
  cases hget : st.registry.get capabilities.nodeId with
  | none =>
    have hne : w ≠ capabilities.nodeId := by
      rintro rfl
      exact h hget
    rw [join_new hget]
    unfold Known at h ⊢
    rwa [markPending, get_modify_of_ne hne, get_insert_of_ne hne]
  | some e =>
    rw [join_known hget]
    exact handled_reconnect.known h.rejoin

/-- A new worker is pending, and its process waits. -/
theorem join_new_pending (cfg : CoordinatorConfig F) (links : String → Link) (kind : Registration)
    (hnew : st.registry.get capabilities.nodeId = none) :
    (st.join cfg links capabilities kind).registry.status capabilities.nodeId = some .pending ∧
      (st.join cfg links capabilities kind).processes capabilities.nodeId =
        .registering kind := by
  rw [join_new hnew]
  refine ⟨?_, Function.update_self _ _ _⟩
  have hentry : (st.registry.insert (freshEntry capabilities)).get capabilities.nodeId =
    some (freshEntry capabilities) := get_insert_self
  unfold markPending PeerRegistry.status
  rw [get_modify_self, hentry]
  rfl

variable [DecidableEq F] {ev : CoordinatorEvent F}

theorem known_step (h : st.registry.Known w) : (st.step cfg ev).registry.Known w := by
  cases ev with
  | join capabilities kind links => exact known_join h
  | leave id => exact h.modify (by intro e; rfl)
  | acked id freeBlocks => exact h.modify (by intro e; rfl)
  | crash deadIds links => exact handled_crash.known h
  | drain links => exact handled_drain.known h
  | adopt | allocate => exact h
  | rehash workers => exact Handled.known (.inl (untouched_rehash workers)) h

/-- **One step** after which a known worker is pending has not touched it. -/
theorem untouched_step_of_pending (hsane : st.Sane) (hknown : st.registry.Known w)
    (h : (st.step cfg ev).registry.status w = some .pending) :
    Untouched w st (st.step cfg ev) := by
  cases ev with
  | join capabilities kind links => exact untouched_join_of_pending hknown h
  | leave id =>
    refine untouched_leave fun hready => ?_
    rintro rfl
    -- a ready worker that leaves is draining
    obtain ⟨e, hget, hready⟩ := Option.map_eq_some_iff.1 hready
    have hdraining : (st.registry.markDraining w).status w = some .draining := by
      unfold markDraining PeerRegistry.status
      rw [get_modify_self, hget, Option.map_some, Option.map_some, if_pos hready]
    cases hdraining.symm.trans h
  | acked id freeBlocks => exact untouched_acked id freeBlocks
  | crash deadIds links => exact handled_crash.untouched h
  | drain links => exact handled_drain.untouched h
  | adopt => exact ⟨rfl, rfl, rfl⟩
  | allocate links =>
    refine untouched_emit_to fun hmem => (hsane w ?_).2 h
    exact List.mem_append_left _ ((List.takeWhile_prefix _).subset hmem)
  | rehash workers => exact untouched_rehash workers

theorem renewed_step : Renewed st (st.step cfg ev) := by
  cases ev with
  | join capabilities kind links =>
    change Renewed st (st.join cfg links capabilities kind)
    cases hget : st.registry.get capabilities.nodeId with
    | none => exact renewed_of_eq (by rw [join_new hget]; rfl)
    | some e =>
      rw [join_known hget]
      exact renewed_reconnect
  | leave id => exact renewed_of_eq rfl
  | acked id freeBlocks => exact renewed_of_eq rfl
  | crash deadIds links =>
    change Renewed st (st.crash cfg links deadIds)
    unfold crash
    dsimp only
    split
    · exact renewed_of_eq rfl
    · split
      · exact renewed_rebalance
      · exact renewed_of_eq rfl
  | drain links =>
    change Renewed st (st.drain cfg links)
    unfold drain
    dsimp only
    split
    · exact renewed_of_eq rfl
    · split
      · exact renewed_rebalance
      · exact renewed_of_eq rfl
  | adopt => exact renewed_adopt
  | allocate links => exact renewed_of_eq rfl
  | rehash workers =>
    change Renewed st (st.rehash workers)
    unfold rehash
    split
    · exact renewed_of_eq rfl
    · exact renewed_of_eq rfl

theorem sane_step (hsane : st.Sane) : (st.step cfg ev).Sane := by
  intro id hid
  rcases renewed_step id hid with hold | hready | hdead
  · obtain ⟨hknown, hstatus⟩ := hsane id hold
    refine ⟨known_step hknown, fun hpending => hstatus ?_⟩
    rw [← (untouched_step_of_pending hsane hknown hpending).status]
    exact hpending
  · simp [known_iff, hready]
  · simp [known_iff, hdead]

/-! ## What a pending worker is sent -/

/-- While the worker is pending, its process is the one that registered. -/
structure Waits (w : String) (kind : Registration) (st : Coordinator F) : Prop where
  sane : st.Sane
  known : st.registry.Known w
  process : st.registry.status w = some .pending → st.processes w = .registering kind

theorem Waits.step (h : Waits w kind st) (ev : CoordinatorEvent F) :
    Waits w kind (st.step cfg ev) where
  sane := sane_step h.sane
  known := known_step h.known
  process := by
    intro hpending
    have huntouched := untouched_step_of_pending h.sane h.known hpending
    rw [huntouched.process]
    exact h.process (huntouched.status ▸ hpending)

/-- A new worker waits, whatever comes after. -/
theorem waits_of_join (hsane : st.Sane) (kind : Registration)
    (hnew : st.registry.get capabilities.nodeId = none) (evs : List (CoordinatorEvent F)) :
    Waits capabilities.nodeId kind
      (run (Coordinator.step cfg) (st.step cfg (.join capabilities kind links)) evs) := by
  obtain ⟨hstatus, hprocess⟩ := join_new_pending cfg links kind hnew
  have hknown : (st.join cfg links capabilities kind).registry.Known capabilities.nodeId :=
    known_iff.2 (by simp [hstatus])
  have hjoined : Waits capabilities.nodeId kind
      (st.step cfg (.join capabilities kind links)) :=
    ⟨sane_step hsane, hknown, fun _ => hprocess⟩
  exact run_invariant (Waits capabilities.nodeId kind) hjoined (fun _ ev h => h.step ev) evs

/-- **What a rebalance sends a pending worker is accepted** exactly if the
worker did not register as a fresh process: in every run in which it has
registered as new and is still pending, and for every rebalance that
schedules it then. -/
theorem pending_accepts_iff (cfg : CoordinatorConfig F) (st : Coordinator F) (hsane : st.Sane)
    (capabilities : WorkerCapabilities F) (kind : Registration) (links : String → Link)
    (hnew : st.registry.get capabilities.nodeId = none) (evs : List (CoordinatorEvent F))
    (hpending : (run (step cfg) (st.step cfg (.join capabilities kind links))
      evs).registry.status capabilities.nodeId = some .pending)
    (rebalanceLinks : String → Link) (skip : List String) :
    ∀ frame ∈ rebalanceFrames cfg rebalanceLinks skip
      (run (step cfg) (st.step cfg (.join capabilities kind links)) evs).registry,
      frame.nodeId = capabilities.nodeId →
      (((run (step cfg) (st.step cfg (.join capabilities kind links)) evs).processes
        capabilities.nodeId).Accepts frame ↔ kind ≠ .register) := by
  intro frame hframe _
  obtain ⟨r, -, a, -, -, rfl⟩ := mem_rebalanceFrames.1 hframe
  rw [(waits_of_join hsane kind hnew evs).process hpending]
  cases kind with
  | register =>
    constructor
    · intro haccepts
      cases haccepts
    · intro hne
      exact absurd rfl hne
  | reRegister current =>
    constructor
    · intro _ hkind
      cases hkind
    · intro _
      rfl

/-- A fresh worker registers, and the next rebalance takes it into the
pipeline; its process has ended. -/
theorem fresh_worker_ends :
    (run (step evenly) bothServing
        [.join (ampleWorker "w3") .register fun _ => answering]).registry.status "w3" =
        some .pending ∧
      (run (step evenly) bothServing [.join (ampleWorker "w3") .register fun _ => answering,
        .drain fun _ => answering]).sent.filter (fun frame => frame.nodeId = "w3") =
        [⟨"w3", .reconfigure, some ⟨3, 4⟩⟩] ∧
      (run (step evenly) bothServing [.join (ampleWorker "w3") .register fun _ => answering,
        .drain fun _ => answering]).processes "w3" = .exited ∧
      (run (step evenly) bothServing [.join (ampleWorker "w3") .register fun _ => answering,
        .drain fun _ => answering]).pipelineOrder = ["w1", "w2", "w3"] := by
  decide +kernel

theorem pending_accepts_iff_reRegister :
    ⟨"w3", .reconfigure, some ⟨3, 4⟩⟩ ∈ rebalanceFrames evenly (fun _ => answering) []
      (run (step evenly) (bothServing.step evenly
        (.join (ampleWorker "w3") (.reRegister none) fun _ => answering)) [.acked "w1" 3]).registry ∧
      (((run (step evenly) (bothServing.step evenly
        (.join (ampleWorker "w3") (.reRegister none) fun _ => answering))
          [.acked "w1" 3]).processes "w3").Accepts ⟨"w3", .reconfigure, some ⟨3, 4⟩⟩ ↔
        Registration.reRegister none ≠ .register) := by
  have hsane : bothServing.Sane := by
    intro id hid
    rcases List.mem_pair.1 hid with rfl | rfl <;>
      exact ⟨by unfold Known; decide +kernel, by decide +kernel⟩
  refine ⟨?sent, pending_accepts_iff evenly bothServing hsane (ampleWorker "w3") (.reRegister none)
    (fun _ => answering) (by decide +kernel) [.acked "w1" 3] (by decide +kernel)
    (fun _ => answering) [] _ ?sent rfl⟩
  decide +kernel

end Coordinator

end Fracture
