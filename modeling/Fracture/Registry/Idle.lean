import Fracture.Registry.Draining

/-!
# The rebalance of an idle loop

The idle loop rebalances while a worker is draining or pending. A pending
worker that the schedule leaves out stays pending, and the loop rebalances
again and again.
-/

namespace Fracture

open Effect Layers Runs

variable {F : Type}

/-- A worker joins or leaves. -/
def CoordinatorEvent.Enrols : CoordinatorEvent F → Prop
  | .join .. | .leave _ => True
  | _ => False

namespace Coordinator

open PeerRegistry

variable {cfg : CoordinatorConfig F} {st st' : Coordinator F} {w : String}

/-- The idle loop has no reason to rebalance. -/
def Calm (st : Coordinator F) : Prop :=
  st.registry.withStatus .draining = [] ∧ st.registry.pendingWorkers = []

/-- The worker is a reason. -/
def Waiting (w : String) (st : Coordinator F) : Prop :=
  st.registry.status w = some .draining ∨ st.registry.status w = some .pending

theorem calm_iff : st.Calm ↔ ∀ w, ¬ Waiting w st := by
  simp only [Calm, Waiting, pendingWorkers, List.eq_nil_iff_forall_not_mem, mem_withStatus,
    forall_and, not_or]

theorem not_waiting (h : st.registry.status w = some .ready ∨ st.registry.status w = some .dead) :
    ¬ Waiting w st := by
  rcases h with hs | hs <;> simp [Waiting, hs]

theorem Handled.waiting (h : Handled w st st') (hw : Waiting w st') : Waiting w st := by
  rcases h.status with hsame | hset
  · unfold Waiting at hw
    rwa [hsame] at hw
  · exact absurd hw (not_waiting hset)

/-- The idle loop rebalances for a worker that waits. -/
theorem drain_of_waiting (links : String → Link) (hcan : cfg.canRebalance = true) (hw : Waiting w st) :
    ∃ frames, st.drain cfg links = ({ st with registry := st.drained }.emit frames).rebalance cfg
      links (st.registry.withStatus .draining) := by
  refine ⟨_, (if_neg fun hnone => ?_).trans (if_pos hcan)⟩
  simp only [Bool.and_eq_true, List.isEmpty_iff] at hnone
  exact calm_iff.1 hnone w hw

variable [DecidableEq F]

/-- **One step** other than a join or a leave lets nobody wait. -/
theorem Calm.step (h : st.Calm) {ev : CoordinatorEvent F} (hev : ¬ ev.Enrols) :
    (st.step cfg ev).Calm := by
  refine calm_iff.2 fun w hw => calm_iff.1 h w ?_
  cases ev with
  | join | leave => exact absurd trivial hev
  | acked id freeBlocks => exact Handled.waiting (.inl (untouched_acked id freeBlocks)) hw
  | crash deadIds links => exact handled_crash.waiting hw
  | drain links => exact handled_drain.waiting hw
  | adopt | allocate => exact hw
  | rehash workers => exact Handled.waiting (.inl (untouched_rehash workers)) hw

/-- **The loop does not rebalance again** after a rebalance that succeeded,
until a worker joins or leaves, exactly when the schedule has a place for
every pending worker. -/
theorem idle_rebalance_once_iff (cfg : CoordinatorConfig F) (links : String → Link)
    (st : Coordinator F) (hcan : cfg.canRebalance = true) {res : RebalanceResult F}
    {reg' : PeerRegistry F} (hok : st.drained.forcedRebalance cfg.f32 links cfg.modelConfig
      cfg.schedulingMode cfg.maxSeqLen (st.registry.withStatus .draining) = .ok res reg') :
    (∀ evs, (∀ ev ∈ evs, ¬ ev.Enrols) → (run (step cfg) (st.drain cfg links) evs).Calm) ↔
      ∀ w ∈ st.registry.pendingWorkers, w ∈ scheduledIds cfg.f32
        (scheduleInput cfg (st.registry.withStatus .draining) st.drained) := by
  obtain ⟨r, hr⟩ := exists_schedule hok
  constructor
  · intro hcalm w hw
    have hw := mem_withStatus.1 hw
    obtain ⟨frames, hdrain⟩ := drain_of_waiting links hcan (.inr hw)
    by_contra hout
    have hsame : st.drained.status w = st.registry.status w :=
      status_of_get_eq (get_foldl_markDead fun hin => by cases hw.symm.trans (mem_withStatus.1 hin))
    refine calm_iff.1 (hcalm [] (by simp)) w (.inr ?_)
    change (st.drain cfg links).registry.status w = _
    rw [hdrain, (untouched_rebalance (unscheduled_of_notMem hout)).status]
    exact hsame.trans hw
  · intro hall evs hevs
    refine (throughout_of_forall hevs).invariant Calm (calm_iff.2 fun w hafter => ?_) (·.step ·)
    have hw := handled_drain.waiting hafter
    obtain ⟨frames, hdrain⟩ := drain_of_waiting links hcan hw
    rw [hdrain] at hafter
    rcases hw with hw | hw
    · exact not_waiting (.inr (status_drained hw)) (handled_rebalance.waiting hafter)
    · rw [← (rebalanceSchedule_eq_ok hr).2.2.1] at hall
      exact not_waiting (status_rebalance hr (hall w (mem_withStatus.2 hw))) hafter

/-- A worker has joined two that serve. -/
def joined (cfg : CoordinatorConfig ℚ) (w : WorkerCapabilities ℚ) : Coordinator ℚ :=
  bothServing.step cfg (.join w .register fun _ => answering)

/-- The schedule leaves a slow worker out, and it is still pending. -/
theorem pruned_worker_pending :
    isOk ((joined { evenly with schedulingMode := .auto } ⟨"w3", 10000, 100, 100⟩).drained.forcedRebalance
        F32.exact (fun _ => answering) fourLayers .auto 64 []) ∧
      ((joined { evenly with schedulingMode := .auto } ⟨"w3", 10000, 100, 100⟩).drain
        { evenly with schedulingMode := .auto } fun _ => answering).registry.pendingWorkers = ["w3"] := by
  decide +kernel

theorem idle_rebalance_once_joined :
    (joined evenly (ampleWorker "w3")).registry.pendingWorkers = ["w3"] ∧
      ∀ evs, (∀ ev ∈ evs, ¬ ev.Enrols) →
        (run (step evenly) ((joined evenly (ampleWorker "w3")).drain evenly fun _ => answering)
          evs).Calm := by
  obtain ⟨res, reg', hok⟩ := exists_of_isOk (r := (joined evenly
    (ampleWorker "w3")).drained.forcedRebalance F32.exact (fun _ => answering) fourLayers
      .equalSplit 64 []) (by decide +kernel)
  exact ⟨by decide +kernel, (idle_rebalance_once_iff evenly (fun _ => answering)
    (joined evenly (ampleWorker "w3")) rfl hok).2 (by decide +kernel)⟩

end Coordinator

end Fracture
