import Fracture.Registry.Coordinator

/-!
# What a step does to a worker

A worker is touched by a rebalance or a reconnect when it is scheduled,
and then it is ready or dead afterwards. Otherwise its entry and its
process are as before, and no frame is sent to it.
-/

namespace Fracture

open Effect Layers

variable {F : Type}

namespace PeerRegistry

variable {links : String → Link} {reg reg' : PeerRegistry F} {nodeId other : String}

theorem get_markDead_of_ne (h : other ≠ nodeId) : (reg.markDead nodeId).get other = reg.get other :=
  get_modify_of_ne h

variable {ids : List String}

/-- Some workers are marked dead, the others are left alone. -/
theorem get_foldl_markDead (h : nodeId ∉ ids) :
    (ids.foldl markDead reg).get nodeId = reg.get nodeId := by
  induction ids generalizing reg with
  | nil => rfl
  | cons id ids ih =>
    obtain ⟨hne, hrest⟩ := not_or.1 (List.mem_cons.not.1 h)
    rw [List.foldl_cons, ih hrest, get_markDead_of_ne hne]

theorem status_markDead_self :
    (reg.markDead nodeId).status nodeId = (reg.status nodeId).map fun _ => .dead := by
  unfold status markDead
  rw [get_modify_self, Option.map_map, Option.map_map]
  rfl

/-- Those that are marked are dead, if they are there at all. -/
theorem status_foldl_markDead (h : nodeId ∈ ids) :
    (ids.foldl markDead reg).status nodeId = (reg.status nodeId).map fun _ => .dead := by
  induction ids generalizing reg with
  | nil => cases h
  | cons id ids ih =>
    rw [List.foldl_cons]
    by_cases hself : nodeId = id
    · subst hself
      by_cases hrest : nodeId ∈ ids
      · rw [ih hrest, status_markDead_self, Option.map_map]
        rfl
      · rw [status, get_foldl_markDead hrest]
        exact status_markDead_self
    · have hsame : (reg.markDead id).status nodeId = reg.status nodeId := by
        rw [status, get_markDead_of_ne hself, status]
      rw [ih ((List.mem_cons.1 h).resolve_left hself), hsame]

variable {change : WorkerEntry F → WorkerEntry F}

/-- A worker with a status that a map of the entries leaves it. -/
theorem get_of_workers_map (hsame : ∀ e, (change e).nodeId = e.nodeId)
    (h : reg'.workers = reg.workers.map change) :
    reg'.get nodeId = (reg.get nodeId).map change := by
  cases hget : reg.get nodeId with
  | none =>
    refine List.find?_eq_none.2 fun e he => ?_
    rw [h] at he
    obtain ⟨e₀, he₀, rfl⟩ := List.mem_map.1 he
    have hne := List.find?_eq_none.1 hget e₀ he₀
    rwa [hsame]
  | some e =>
    obtain ⟨hmem, hid⟩ := get_eq_some.1 hget
    refine get_eq_some.2 ⟨?_, by rw [hsame, hid]⟩
    rw [h]
    exact List.mem_map_of_mem hmem

variable {entry : WorkerEntry F}

theorem get_insert_self : (reg.insert entry).get entry.nodeId = some entry :=
  get_eq_some.2 ⟨List.mem_append_right _ List.mem_cons_self, rfl⟩

theorem get_insert_of_ne (h : other ≠ entry.nodeId) :
    (reg.insert entry).get other = reg.get other := by
  cases hget : reg.get other with
  | none =>
    refine List.find?_eq_none.2 fun e he => ?_
    rcases List.mem_append.1 he with he | he
    · exact List.find?_eq_none.1 hget e (List.mem_filter.1 he).1
    · rw [List.mem_singleton.1 he]
      simpa using h.symm
  | some e =>
    obtain ⟨hmem, rfl⟩ := get_eq_some.1 hget
    exact get_eq_some.2 ⟨List.mem_append_left _ (List.mem_filter.2 ⟨hmem, by simpa using h⟩), rfl⟩

/-- A change that keeps the status of the entry it is made to. -/
theorem status_modify {hsame : ∀ e, (change e).capabilities = e.capabilities}
    (hstatus : ∀ e, reg.get nodeId = some e → (change e).status = e.status) :
    (reg.modify nodeId change hsame).status other = reg.status other := by
  unfold status
  by_cases hself : other = nodeId
  · subst hself
    rw [get_modify_self]
    cases hget : reg.get other with
    | none => rfl
    | some e => rw [Option.map_some, Option.map_some, Option.map_some, hstatus e hget]
  · rw [get_modify_of_ne hself]

/-- The order of the entries does not matter to a worker. -/
theorem get_of_perm (h : reg'.workers.Perm reg.workers) : reg'.get nodeId = reg.get nodeId := by
  refine Option.ext fun e => ?_
  rw [get_eq_some, get_eq_some, h.mem_iff]

/-- The entry of a worker that has just registered. -/
def freshEntry (capabilities : WorkerCapabilities F) : WorkerEntry F :=
  { capabilities, assignment := none, status := .connected, freeBlocks := 0 }

/-- The registry after a known worker has registered again. -/
def rejoin (reg : PeerRegistry F) (capabilities : WorkerCapabilities F) : PeerRegistry F :=
  (reg.markDead capabilities.nodeId).insert (freshEntry capabilities)

variable {capabilities : WorkerCapabilities F}

theorem register_new (h : reg.get capabilities.nodeId = none) :
    reg.register capabilities = .ok (reg.insert (freshEntry capabilities)) := by
  unfold register status
  dsimp only
  rw [h]
  rfl

theorem register_markDead {e : WorkerEntry F} (h : reg.get capabilities.nodeId = some e) :
    (reg.markDead capabilities.nodeId).register capabilities = .ok (reg.rejoin capabilities) := by
  have hdead : (reg.markDead capabilities.nodeId).status capabilities.nodeId = some .dead := by
    unfold status markDead
    rw [get_modify_self, h]
    rfl
  unfold register
  dsimp only
  rw [hdead]
  rfl

theorem get_rejoin_of_ne (h : other ≠ capabilities.nodeId) :
    (reg.rejoin capabilities).get other = reg.get other := by
  rw [rejoin, get_insert_of_ne h, get_markDead_of_ne h]

theorem assign_isOk (a : LayerAssignment F) {s : WorkerStatus} (h : reg.status nodeId = some s)
    (halive : s ≠ .dead) : ∃ reg', reg.assign nodeId a = .ok reg' := by
  unfold assign
  rw [h]
  cases s with
  | dead => exact absurd rfl halive
  | connected | ready | draining | pending => exact ⟨_, rfl⟩

/-- The workers of a list are registered and alive. -/
def Alive (reg : PeerRegistry F) (ids : List String) : Prop :=
  ∀ id ∈ ids, ∃ s, reg.status id = some s ∧ s ≠ .dead

theorem status_of_get_eq {reg₁ reg₂ : PeerRegistry F} (h : reg₁.get nodeId = reg₂.get nodeId) :
    reg₁.status nodeId = reg₂.status nodeId := by
  rw [status, status, h]

/-- **Assigning layers to live workers never fails.** -/
theorem configure_isOk (links : String → Link) {as : List (LayerAssignment F)}
    (hnodup : (as.map (·.nodeId)).Nodup)
    (h : reg.Alive (as.map (·.nodeId))) : ∃ reg', configure links as reg = .ok () reg' := by
  induction as generalizing reg with
  | nil => exact ⟨reg, rfl⟩
  | cons a as ih =>
    obtain ⟨hfresh, hrest⟩ := List.nodup_cons.1 hnodup
    obtain ⟨s, hs, halive⟩ := h a.nodeId List.mem_cons_self
    obtain ⟨mid, hmid⟩ := assign_isOk a hs halive
    have hothers : ∀ reg₁ : PeerRegistry F,
        (∀ id, id ≠ a.nodeId → reg₁.get id = reg.get id) → reg₁.Alive (as.map (·.nodeId)) := by
      intro reg₁ hget id hid
      have hne : id ≠ a.nodeId := by
        rintro rfl
        exact hfresh hid
      rw [status_of_get_eq (hget id hne)]
      exact h id (List.mem_cons_of_mem _ hid)
    have hmodified : ∀ id, id ≠ a.nodeId → mid.get id = reg.get id :=
      fun id hne => get_assign_of_ne hmid hne
    unfold configure
    rw [hmid]
    dsimp only
    cases (links a.nodeId).sendError with
    | none => exact ih hrest (hothers mid hmodified)
    | some e =>
      refine ih hrest (hothers _ fun id hne => ?_)
      rw [get_markDead_of_ne hne, hmodified id hne]

end PeerRegistry

namespace Coordinator

open PeerRegistry

variable {cfg : CoordinatorConfig F} {links : String → Link} {skip : List String}
  {reg : PeerRegistry F} {r : SchedulerResult F} {st : Coordinator F} {w : String}

/-- What a rebalance asks the scheduler. -/
def scheduleInput (cfg : CoordinatorConfig F) (skip : List String) (reg : PeerRegistry F) :
    SchedulerInput F :=
  reg.rebalanceInput cfg.f32 cfg.modelConfig cfg.schedulingMode cfg.maxSeqLen skip

/-- A schedule of a rebalance names live workers, each once. -/
theorem rebalanceSchedule_eq_ok (h : rebalanceSchedule cfg skip reg = .ok r) :
    (scheduleInput cfg skip reg).workers.isEmpty = false ∧
      schedule cfg.f32 (scheduleInput cfg skip reg) = .ok r ∧
      r.assignments.map (·.nodeId) = scheduledIds cfg.f32 (scheduleInput cfg skip reg) ∧
      (r.assignments.map (·.nodeId)).Nodup ∧ reg.Alive (r.assignments.map (·.nodeId)) := by
  unfold rebalanceSchedule at h
  dsimp only at h
  split at h
  · cases h
  · next hsome =>
    obtain ⟨cs, counts, hplan⟩ := exists_planned h
    have hcandidates : ((candidates (scheduleInput cfg skip reg)).map (·.nodeId)).Nodup :=
      reg.allCapabilities_nodup.sublist (List.filter_sublist.map _)
    refine ⟨Bool.eq_false_iff.2 hsome, h, map_nodeId_of_schedule h,
      hplan.map_nodeId ▸ hplan.distinct hcandidates, fun id hid => ?_⟩
    rw [hplan.map_nodeId] at hid
    obtain ⟨c, hc, rfl⟩ := List.mem_map.1 hid
    have hcap : c ∈ reg.allCapabilities := (List.mem_filter.1 (hplan.known c hc)).1
    obtain ⟨e, he, rfl⟩ := List.mem_map.1 hcap
    obtain ⟨hmem, halive⟩ := List.mem_filter.1 he
    exact ⟨e.status, status_eq_some.2 ⟨e, hmem, rfl, rfl⟩, by simpa using halive⟩

/-! ## A rebalance -/

variable {e : Fault}

/-- Without a schedule a rebalance changes nothing. -/
theorem forcedRebalance_of_error (h : rebalanceSchedule cfg skip reg = .error e) :
    reg.forcedRebalance cfg.f32 links cfg.modelConfig cfg.schedulingMode cfg.maxSeqLen skip =
      .error e reg := by
  unfold rebalanceSchedule at h
  unfold forcedRebalance
  dsimp only at h ⊢
  split at h
  · next hempty =>
    cases h
    rw [if_pos hempty]
  · next hsome =>
    rw [if_neg hsome, h]

theorem exists_schedule {res : RebalanceResult F} {reg' : PeerRegistry F}
    (h : reg.forcedRebalance cfg.f32 links cfg.modelConfig cfg.schedulingMode cfg.maxSeqLen skip =
      .ok res reg') : ∃ r, rebalanceSchedule cfg skip reg = .ok r := by
  cases hr : rebalanceSchedule cfg skip reg with
  | error e =>
    rw [forcedRebalance_of_error hr] at h
    cases h
  | ok r => exact ⟨r, rfl⟩

/-- With a schedule every entry is settled by it, whether or not there is a
pipeline. -/
theorem forcedRebalance_of_ok (h : rebalanceSchedule cfg skip reg = .ok r) :
    (state (reg.forcedRebalance cfg.f32 links cfg.modelConfig cfg.schedulingMode cfg.maxSeqLen
      skip)).workers = reg.workers.map (settle links r.assignments) := by
  obtain ⟨hsome, hschedule, -, hnodup, halive⟩ := rebalanceSchedule_eq_ok h
  obtain ⟨conf, hconf⟩ := configure_isOk links hnodup halive
  unfold scheduleInput at hsome hschedule
  unfold forcedRebalance
  dsimp only
  rw [if_neg (Bool.eq_false_iff.1 hsome), hschedule]
  dsimp only
  rw [hconf, ← configure_eq_ok hnodup hconf]
  cases DistributedPipeline.new r.assignments cfg.modelConfig.hiddenSize with
  | error e => rfl
  | ok pipeline => rfl

/-- The worker has its status, its process is as it was, and it was sent
nothing. -/
structure Untouched (w : String) (st st' : Coordinator F) : Prop where
  status : st'.registry.status w = st.registry.status w
  process : st'.processes w = st.processes w
  frames : st'.sent.filter (fun frame => frame.nodeId = w) =
    st.sent.filter fun frame => frame.nodeId = w

theorem Untouched.refl (w : String) (st : Coordinator F) : Untouched w st st := ⟨rfl, rfl, rfl⟩

theorem Untouched.trans {st' st'' : Coordinator F} (h : Untouched w st st')
    (h' : Untouched w st' st'') : Untouched w st st'' :=
  ⟨h'.status.trans h.status, h'.process.trans h.process, h'.frames.trans h.frames⟩

/-- A change of the registry that is not about the worker. -/
theorem untouched_of_status {registry : PeerRegistry F}
    (h : registry.status w = st.registry.status w) : Untouched w st { st with registry } :=
  ⟨h, rfl, rfl⟩

variable {frames : List SentFrame}

theorem deliver_of_notMem {processes : String → WorkerProcess}
    (h : ∀ frame ∈ frames, frame.nodeId ≠ w) :
    WorkerProcess.deliver processes frames w = processes w := by
  induction frames generalizing processes with
  | nil => rfl
  | cons frame frames ih =>
    have hne : w ≠ frame.nodeId := (h frame List.mem_cons_self).symm
    exact (ih fun fr hfr => h fr (List.mem_cons_of_mem _ hfr)).trans
      (Function.update_of_ne hne _ _)

theorem untouched_emit (h : ∀ frame ∈ frames, frame.nodeId ≠ w) :
    Untouched w st (st.emit frames) where
  status := rfl
  process := deliver_of_notMem h
  frames := by
    have hnone : frames.filter (fun frame => frame.nodeId = w) = [] :=
      List.filter_eq_nil_iff.2 fun frame hframe => by simpa using h frame hframe
    rw [emit, List.filter_append, hnone, List.append_nil]

theorem untouched_emit_to {ids : List String} {msgType : MessageType} (h : w ∉ ids) :
    Untouched w st (st.emit (ids.map fun id => { nodeId := id, msgType, layers := none })) :=
  untouched_emit (List.forall_mem_map.2 fun _ hmem hid => h (hid ▸ hmem))

variable {as : List (LayerAssignment F)} {reg' : PeerRegistry F}

/-- A schedule that does not name the worker settles its entry as it is. -/
theorem status_of_settled (hworkers : reg'.workers = reg.workers.map (settle links as))
    (hout : w ∉ as.map (·.nodeId)) : reg'.status w = reg.status w := by
  unfold PeerRegistry.status
  rw [get_of_workers_map (nodeId_settle as) hworkers]
  cases hget : reg.get w with
  | none => rfl
  | some e =>
    have hid : e.nodeId = w := (get_eq_some.1 hget).2
    rw [Option.map_some, settle_of_notMem (hid ▸ hout)]

/-- A schedule that names the worker leaves it ready, or dead. -/
theorem status_of_settled_mem (hworkers : reg'.workers = reg.workers.map (settle links as))
    (hnodup : (as.map (·.nodeId)).Nodup) (halive : reg.Alive (as.map (·.nodeId)))
    (hin : w ∈ as.map (·.nodeId)) : reg'.status w = some .ready ∨ reg'.status w = some .dead := by
  obtain ⟨a, ha, rfl⟩ := List.mem_map.1 hin
  obtain ⟨s, hs, -⟩ := halive a.nodeId hin
  obtain ⟨e, he, hid, -⟩ := status_eq_some.1 hs
  have hget : reg'.get a.nodeId = some (assigned links a e) := by
    rw [get_of_workers_map (nodeId_settle as) hworkers, get_eq_some.2 ⟨he, hid⟩, Option.map_some,
      settle_of_mem hnodup ha hid]
  rw [PeerRegistry.status, hget]
  by_cases hsend : (links a.nodeId).sendError.isNone
  · exact .inl (by simp [assigned, hsend])
  · exact .inr (by simp [assigned, hsend])

/-- The registry after a rebalance, with or without a pipeline. -/
theorem registry_rebalance :
    (st.rebalance cfg links skip).registry =
      state (st.registry.forcedRebalance cfg.f32 links cfg.modelConfig cfg.schedulingMode
        cfg.maxSeqLen skip) := by
  unfold rebalance
  dsimp only
  split <;> next h => rw [h]; rfl

/-- The frames of a rebalance go to scheduled workers. -/
theorem mem_rebalanceFrames {frame : SentFrame} :
    frame ∈ rebalanceFrames cfg links skip reg ↔
      ∃ r, rebalanceSchedule cfg skip reg = .ok r ∧ ∃ a ∈ r.assignments,
        reachable links a.nodeId = true ∧ frame = ⟨a.nodeId, .reconfigure, some a.layerRange⟩ := by
  unfold rebalanceFrames
  cases h : rebalanceSchedule cfg skip reg with
  | error e => simp
  | ok r =>
    simp only [List.mem_map, List.mem_filter, Except.ok.injEq, exists_eq_left', and_assoc]
    exact exists_congr fun a => and_congr_right fun _ => and_congr_right fun _ => eq_comm

/-- No schedule of a rebalance names the worker. -/
def Unscheduled (cfg : CoordinatorConfig F) (skip : List String) (reg : PeerRegistry F)
    (w : String) : Prop :=
  ∀ r, rebalanceSchedule cfg skip reg = .ok r → w ∉ r.assignments.map (·.nodeId)

theorem not_unscheduled : ¬ Unscheduled cfg skip reg w ↔
    ∃ r, rebalanceSchedule cfg skip reg = .ok r ∧ w ∈ r.assignments.map (·.nodeId) := by
  simp only [Unscheduled, not_forall, not_not, exists_prop]

theorem unscheduled_of_notMem (hout : w ∉ scheduledIds cfg.f32 (scheduleInput cfg skip reg)) :
    Unscheduled cfg skip reg w := by
  intro r hr
  rwa [(rebalanceSchedule_eq_ok hr).2.2.1]

/-- **A rebalance leaves a worker alone that is not scheduled.** -/
theorem untouched_rebalance (hout : Unscheduled cfg skip st.registry w) :
    Untouched w st (st.rebalance cfg links skip) := by
  have hframes : ∀ frame ∈ rebalanceFrames cfg links skip st.registry, frame.nodeId ≠ w := by
    rintro frame hframe rfl
    obtain ⟨r, hr, a, ha, -, rfl⟩ := mem_rebalanceFrames.1 hframe
    exact hout r hr (List.mem_map_of_mem ha)
  have hstatus : (state (st.registry.forcedRebalance cfg.f32 links cfg.modelConfig
      cfg.schedulingMode cfg.maxSeqLen skip)).status w = st.registry.status w := by
    cases hr : rebalanceSchedule cfg skip st.registry with
    | error e => rw [forcedRebalance_of_error hr, state_error]
    | ok r => exact status_of_settled (forcedRebalance_of_ok hr) (hout r hr)
  unfold rebalance
  dsimp only
  split <;> next h =>
    rw [h] at hstatus
    refine Untouched.trans ?_ (untouched_emit hframes)
    exact ⟨hstatus, rfl, rfl⟩

/-- A rebalance leaves a scheduled worker ready or dead. -/
theorem status_rebalance (hr : rebalanceSchedule cfg skip st.registry = .ok r)
    (hin : w ∈ r.assignments.map (·.nodeId)) :
    (st.rebalance cfg links skip).registry.status w = some .ready ∨
      (st.rebalance cfg links skip).registry.status w = some .dead := by
  obtain ⟨-, -, -, hnodup, halive⟩ := rebalanceSchedule_eq_ok hr
  rw [registry_rebalance]
  exact status_of_settled_mem (forcedRebalance_of_ok hr) hnodup halive hin

/-! ## A reconnect -/

/-- One turn of the listener's loop, which ignores a failure. -/
def tryAssign (reg : PeerRegistry F) (a : LayerAssignment F) : PeerRegistry F :=
  (reg.assign a.nodeId a).toOption.getD reg

variable {a : LayerAssignment F}

theorem get_tryAssign_of_ne (h : w ≠ a.nodeId) : (tryAssign reg a).get w = reg.get w := by
  unfold tryAssign
  cases hassign : reg.assign a.nodeId a with
  | error e => rfl
  | ok reg' => exact get_assign_of_ne hassign h

variable {s : WorkerStatus}

theorem status_tryAssign_self (h : reg.status a.nodeId = some s) (halive : s ≠ .dead) :
    (tryAssign reg a).status a.nodeId = some .ready := by
  obtain ⟨reg', hassign⟩ := assign_isOk a h halive
  obtain ⟨e, hget, -⟩ := Option.map_eq_some_iff.1 h
  have hget' := get_assign_self hassign
  unfold tryAssign PeerRegistry.status
  rw [hassign, Except.toOption, Option.getD_some, hget', hget]
  rfl

theorem status_assignAll_of_notMem (hout : w ∉ as.map (·.nodeId)) :
    (assignAll as reg).status w = reg.status w := by
  induction as generalizing reg with
  | nil => rfl
  | cons a as ih =>
    obtain ⟨hne, hrest⟩ := not_or.1 (List.mem_cons.not.1 hout)
    exact (ih hrest).trans (status_of_get_eq (get_tryAssign_of_ne hne))

theorem status_assignAll (h : reg.status w = some s) (halive : s ≠ .dead)
    (hin : w ∈ as.map (·.nodeId)) : (assignAll as reg).status w = some .ready := by
  induction as generalizing reg s with
  | nil => cases hin
  | cons a as ih =>
    have hstep : assignAll (a :: as) reg = assignAll as (tryAssign reg a) := rfl
    rw [hstep]
    by_cases hself : w = a.nodeId
    · subst hself
      have hready := status_tryAssign_self h halive
      by_cases hrest : a.nodeId ∈ as.map (·.nodeId)
      · exact ih hready (by decide) hrest
      · rw [status_assignAll_of_notMem hrest]
        exact hready
    · have hsame : (tryAssign reg a).status w = reg.status w :=
        status_of_get_eq (get_tryAssign_of_ne hself)
      exact ih (hsame.trans h) halive ((List.mem_cons.1 hin).resolve_left hself)

variable {nodeId : String} {kind : Registration}

/-- What everyone is sent when a worker has come back. -/
def reconnectFrames (links : String → Link) (nodeId : String) (kind : Registration)
    (as : List (LayerAssignment F)) : List SentFrame :=
  (as.filter fun a => reachable links a.nodeId).map fun a =>
    { nodeId := a.nodeId, msgType := reconnectMessage nodeId kind a, layers := some a.layerRange }

/-- A reconnect with a schedule assigns the layers and sends the frames; what
is published is the schedule's pipeline or what was. -/
theorem reconnect_of_ok (links : String → Link) (nodeId : String) (kind : Registration)
    (h : rebalanceSchedule cfg [] st.registry = .ok r) :
    ∃ published, st.reconnect cfg links nodeId kind =
      { { st with registry := assignAll r.assignments st.registry }.emit
          (reconnectFrames links nodeId kind r.assignments) with published } ∧
      (published = st.published ∨ published = some (r.assignments.map (·.nodeId))) := by
  unfold reconnect
  rw [h]
  dsimp only
  split
  · split
    · exact ⟨st.published, rfl, .inl rfl⟩
    · next pipeline hpipeline =>
      exact ⟨_, rfl, .inr (congrArg some (DistributedPipeline.new_eq_ok hpipeline).1)⟩
  · exact ⟨st.published, rfl, .inl rfl⟩

theorem reconnect_of_error (h : rebalanceSchedule cfg [] st.registry = .error e) :
    st.reconnect cfg links nodeId kind = st := by
  unfold reconnect
  rw [h]

/-- **A reconnect leaves a worker alone that is not scheduled.** -/
theorem untouched_reconnect (hout : Unscheduled cfg [] st.registry w) :
    Untouched w st (st.reconnect cfg links nodeId kind) := by
  cases hr : rebalanceSchedule cfg [] st.registry with
  | error e =>
    rw [reconnect_of_error hr]
    exact .refl w st
  | ok r =>
    obtain ⟨published, hst, -⟩ := reconnect_of_ok links nodeId kind hr
    have hids := hout r hr
    have hframes : ∀ frame ∈ reconnectFrames links nodeId kind r.assignments,
        frame.nodeId ≠ w := by
      refine List.forall_mem_map.2 fun a ha hid => hids ?_
      exact hid ▸ List.mem_map_of_mem (List.mem_filter.1 ha).1
    have hassigned : Untouched w st { st with registry := assignAll r.assignments st.registry } :=
      untouched_of_status (status_assignAll_of_notMem hids)
    have hemitted := hassigned.trans (untouched_emit hframes)
    rw [hst]
    exact ⟨hemitted.status, hemitted.process, hemitted.frames⟩

/-- A reconnect leaves a scheduled worker ready. -/
theorem status_reconnect (hr : rebalanceSchedule cfg [] st.registry = .ok r)
    (hin : w ∈ r.assignments.map (·.nodeId)) :
    (st.reconnect cfg links nodeId kind).registry.status w = some .ready := by
  obtain ⟨published, hst, -⟩ := reconnect_of_ok links nodeId kind hr
  obtain ⟨-, -, -, -, halive⟩ := rebalanceSchedule_eq_ok hr
  obtain ⟨s, hs, hlive⟩ := halive w hin
  rw [hst]
  exact status_assignAll hs hlive hin

/-! ## A registration -/

variable {capabilities : WorkerCapabilities F}

theorem join_new (h : st.registry.get capabilities.nodeId = none) :
    st.join cfg links capabilities kind =
      { st with
        registry := (st.registry.insert (freshEntry capabilities)).markPending capabilities.nodeId,
        processes := Function.update st.processes capabilities.nodeId (.registering kind) } := by
  unfold join
  dsimp only
  rw [h, register_new h]

/-- The coordinator when a known worker has registered again, before anyone
is reconfigured. -/
def rejoined (st : Coordinator F) (capabilities : WorkerCapabilities F) (kind : Registration) :
    Coordinator F :=
  { st with
    registry := st.registry.rejoin capabilities,
    processes := Function.update st.processes capabilities.nodeId (.registering kind) }

theorem join_known {e : WorkerEntry F} (h : st.registry.get capabilities.nodeId = some e) :
    st.join cfg links capabilities kind =
      (st.rejoined capabilities kind).reconnect cfg links capabilities.nodeId kind := by
  unfold join rejoined
  dsimp only
  rw [h, register_markDead h]

theorem untouched_rejoined (h : w ≠ capabilities.nodeId) :
    Untouched w st (st.rejoined capabilities kind) :=
  ⟨status_of_get_eq (get_rejoin_of_ne h), Function.update_of_ne h _ _, rfl⟩

theorem status_rejoined :
    (st.rejoined capabilities kind).registry.status capabilities.nodeId = some .connected := by
  have hget : (st.rejoined capabilities kind).registry.get capabilities.nodeId =
    some (freshEntry capabilities) := get_insert_self
  rw [PeerRegistry.status, hget]
  rfl

/-- A new worker is nothing to the others. -/
theorem untouched_join_new (hget : st.registry.get capabilities.nodeId = none)
    (h : w ≠ capabilities.nodeId) : Untouched w st (st.join cfg links capabilities kind) := by
  have hentry : ((st.registry.insert (freshEntry capabilities)).markPending
      capabilities.nodeId).get w = st.registry.get w :=
    (get_modify_of_ne h).trans (get_insert_of_ne h)
  rw [join_new hget]
  exact ⟨status_of_get_eq hentry, Function.update_of_ne h _ _, rfl⟩

/-! ## What becomes of one worker -/

/-- The worker is left alone, or it is ready or dead. -/
def Handled (w : String) (st st' : Coordinator F) : Prop :=
  Untouched w st st' ∨ st'.registry.status w = some .ready ∨ st'.registry.status w = some .dead

section

variable {st' : Coordinator F} (h : Handled w st st')
include h

theorem Handled.trans {st'' : Coordinator F} (h' : Handled w st' st'') : Handled w st st'' := by
  rcases h' with huntouched | hset
  · rcases h with hfirst | hset
    · exact .inl (hfirst.trans huntouched)
    · exact .inr (huntouched.status ▸ hset)
  · exact .inr hset

theorem Handled.status :
    st'.registry.status w = st.registry.status w ∨ st'.registry.status w = some .ready ∨
      st'.registry.status w = some .dead :=
  h.imp_left (·.status)

theorem Handled.untouched (hw : st'.registry.status w = some .pending) : Untouched w st st' := by
  rcases h with huntouched | hready | hdead
  · exact huntouched
  · cases hw.symm.trans hready
  · cases hw.symm.trans hdead

end

theorem handled_rebalance : Handled w st (st.rebalance cfg links skip) := by
  by_cases hout : Unscheduled cfg skip st.registry w
  · exact .inl (untouched_rebalance hout)
  · obtain ⟨r, hr, hin⟩ := not_unscheduled.1 hout
    exact .inr (status_rebalance hr hin)

theorem handled_reconnect : Handled w st (st.reconnect cfg links nodeId kind) := by
  by_cases hout : Unscheduled cfg [] st.registry w
  · exact .inl (untouched_reconnect hout)
  · obtain ⟨r, hr, hin⟩ := not_unscheduled.1 hout
    exact .inr (.inl (status_reconnect hr hin))

theorem handled_foldl_markDead (ids : List String) :
    Handled w st { st with registry := ids.foldl markDead st.registry } := by
  by_cases hin : w ∈ ids
  · have hstatus : (ids.foldl markDead st.registry).status w = _ := status_foldl_markDead hin
    cases hs : st.registry.status w with
    | none => exact .inl (untouched_of_status (by rw [hstatus, hs]; rfl))
    | some s => exact .inr (.inr (by rw [hstatus, hs]; rfl))
  · exact .inl (untouched_of_status (status_of_get_eq (get_foldl_markDead hin)))

theorem handled_crash {deadIds : List String} : Handled w st (st.crash cfg links deadIds) := by
  unfold crash
  dsimp only
  split
  · exact .inl (.refl w st)
  · split
    · exact (handled_foldl_markDead _).trans handled_rebalance
    · exact handled_foldl_markDead _

theorem mem_withStatus {s : WorkerStatus} : w ∈ reg.withStatus s ↔ reg.status w = some s := by
  simp only [withStatus, status_eq_some, List.mem_map, List.mem_filter, beq_iff_eq]
  exact exists_congr fun e => by rw [and_assoc, and_comm (a := e.status = s)]

/-- The registry in which the idle loop rebalances: leaving workers are
dead. -/
def drained (st : Coordinator F) : PeerRegistry F :=
  (st.registry.withStatus .draining).foldl markDead st.registry

theorem status_drained (h : st.registry.status w = some .draining) :
    st.drained.status w = some .dead := by
  rw [drained, status_foldl_markDead (mem_withStatus.2 h), h]
  rfl

theorem handled_drain : Handled w st (st.drain cfg links) := by
  -- the frames of a shutdown go to the workers that are marked
  have hshutdown : Handled w st ({ st with registry := st.drained }.emit
      (((st.registry.withStatus .draining).filter (reachable links)).map fun id =>
        { nodeId := id, msgType := .shutdown, layers := none })) := by
    by_cases hin : w ∈ st.registry.withStatus .draining
    · exact .inr (.inr (status_drained (mem_withStatus.1 hin)))
    · refine (handled_foldl_markDead _).trans (.inl (untouched_emit_to fun hmem => ?_))
      exact hin (List.mem_filter.1 hmem).1
  unfold drain
  dsimp only
  split
  · exact .inl (.refl w st)
  · split
    · exact hshutdown.trans handled_rebalance
    · exact hshutdown

theorem untouched_rehash [DecidableEq F] (workers : List (WorkerEntry F)) :
    Untouched w st (st.rehash workers) := by
  unfold rehash
  split
  · next hperm => exact untouched_of_status (status_of_get_eq (get_of_perm hperm))
  · exact .refl w st

theorem untouched_acked [DecidableEq F] (nodeId : String) (freeBlocks : ℕ) :
    Untouched w st (st.step cfg (.acked nodeId freeBlocks)) :=
  untouched_of_status (status_modify fun _ _ => rfl)

end Coordinator

end Fracture
