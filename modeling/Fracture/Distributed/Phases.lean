import Fracture.Distributed.Loop

/-!
# The phases of a turn

A turn of the distributed loop is a few phases in a row. What each of
them keeps, the turn keeps: `Walks` lists the phases, and `Walks.turn` is
the one walk through the turn that the results about it share. `Keeps` is
the list for requests with ids of their own.
-/

namespace Fracture

variable {π F : Type}

/-- The requests a turn can receive. -/
def DistributedTurn.arrivals (t : DistributedTurn π F) : List PendingRequest :=
  t.submitted ++ match t.wakeup with
    | .request req => [req]
    | _ => []

/-- The pipelines a turn can go over to. -/
def DistributedTurn.offers (t : DistributedTurn π F) : List π :=
  t.reconfigured.toList ++ t.recovered.toList ++ t.rebalanced.toList ++ match t.wakeup with
    | .reconfigured pipeline => [pipeline]
    | _ => []

namespace DistributedState

/-- The requests of a turn have ids that were not used before. -/
def Fresh (t : DistributedTurn π F) (st : DistributedState π) : Prop :=
  ((st.received ++ t.arrivals).map (·.seqId)).Nodup

/-- Every phase of a turn keeps `P`, and its end makes `Q` of it. Requests
are only put on the list if `A` holds of them and those before. -/
structure Walks (cfg : DistributedLoopConfig) (t : DistributedTurn π F)
    (A : List PendingRequest → List PendingRequest → Prop) (P : DistributedState π → Prop)
    (Q : Option (DistributedLog π F) → DistributedState π → Prop) : Prop where
  switch : ∀ {st pipeline}, pipeline ∈ t.offers → P st → P { st with pipeline }
  flags : ∀ {st} (pipelineDegraded stopped : Bool), P st →
    P { st with pipelineDegraded, stopped }
  enqueue : ∀ {st reqs}, A st.received reqs → (∀ req ∈ reqs, req ∈ t.arrivals) → P st →
    P (st.enqueue reqs)
  abort : ∀ {st}, P st → P (st.abortAll t)
  reject : ∀ {st} (message : String), P st → P (st.rejectPending message)
  admitOne : ∀ {st}, P st → P (st.admitOne cfg t)
  idle : ∀ {st}, P st → Q none st
  batch : ∀ {st}, P st →
    Q (some (runBatch t st (.build cfg (st.values t.order))).1)
      (runBatch t st (.build cfg (st.values t.order))).2

/-- The phases of a turn whose requests have ids of their own. -/
abbrev Keeps (cfg : DistributedLoopConfig) (t : DistributedTurn π F)
    (P : DistributedState π → Prop) (Q : Option (DistributedLog π F) → DistributedState π → Prop) :
    Prop :=
  Walks cfg t (fun received reqs => ((received ++ reqs).map (·.seqId)).Nodup) P Q

/-! ## What is received -/

section Received

variable (cfg : DistributedLoopConfig) (t : DistributedTurn π F) (st : DistributedState π)
  (event : DistributedSequence → GenerationEvent) (release : ℕ → π → π) (ids : List ℕ)

/-- Nothing is received in between, and the loop does not return. -/
def Between (st st' : DistributedState π) : Prop :=
  st'.received = st.received ∧ st'.stopped = st.stopped

variable {st} in
theorem Between.trans {st' st'' : DistributedState π} (h : Between st st')
    (h' : Between st' st'') : Between st st'' :=
  ⟨h'.1.trans h.1, h'.2.trans h.2⟩

theorem between_foldl_removeSeq : Between st (ids.foldl (removeSeq event release) st) := by
  induction ids generalizing st with
  | nil => exact ⟨rfl, rfl⟩
  | cons seqId ids ih =>
    refine Between.trans ?_ (ih _)
    unfold removeSeq
    split <;> exact ⟨rfl, rfl⟩

theorem between_checkReconfigured : Between st (st.checkReconfigured t) := by
  unfold checkReconfigured
  split <;> exact ⟨rfl, rfl⟩

theorem between_abortAll : Between st (st.abortAll t) :=
  between_foldl_removeSeq { st with pipeline := (t.ops.abortAllSequences st.pipeline).2 } ..

theorem between_buryDead : Between st (st.buryDead cfg t) := by
  have haborted := between_abortAll t st
  unfold buryDead
  split
  · exact ⟨rfl, rfl⟩
  · split <;> exact haborted

theorem between_rebalance : Between st (st.rebalance cfg t) := by
  unfold rebalance
  split
  · split <;> exact ⟨rfl, rfl⟩
  · exact ⟨rfl, rfl⟩

theorem between_admitOne : Between st (st.admitOne cfg t) := by
  unfold admitOne
  split
  · exact ⟨rfl, rfl⟩
  · split
    · split <;> exact ⟨rfl, rfl⟩
    · exact ⟨rfl, rfl⟩

theorem between_runBatch (batch : DistributedBatch) : Between st (runBatch t st batch).2 := by
  unfold runBatch
  split
  all_goals
    refine Between.trans ?_ (between_foldl_removeSeq ..)
    exact ⟨rfl, rfl⟩

theorem between_serve : Between st (st.serve cfg t).2 := by
  have hadmitted := between_admitOne cfg t st
  unfold serve
  dsimp only
  split
  · exact hadmitted
  · split
    · exact hadmitted
    · exact hadmitted.trans (between_runBatch ..)

/-- A wait that ends may bring one more request. -/
def Woken (t : DistributedTurn π F) (st st' : DistributedState π) : Prop :=
  st'.received = st.received ∨
    ∃ req, t.wakeup = .request req ∧ st'.received = st.received ++ [req]

end Received

/-! ## The turn -/

section Turn

variable {cfg : DistributedLoopConfig} {t : DistributedTurn π F} {st : DistributedState π}
  {A : List PendingRequest → List PendingRequest → Prop} {P : DistributedState π → Prop}
  {Q : Option (DistributedLog π F) → DistributedState π → Prop}

theorem mem_arrivals_of_submitted {req : PendingRequest} (h : req ∈ t.submitted) :
    req ∈ t.arrivals := List.mem_append_left _ h

theorem mem_arrivals_of_wakeup {req : PendingRequest} (h : t.wakeup = .request req) :
    req ∈ t.arrivals := by
  rw [DistributedTurn.arrivals, h]
  exact List.mem_append_right _ (List.mem_singleton_self req)

theorem mem_offers_of_wakeup {pipeline : π} (h : t.wakeup = .reconfigured pipeline) :
    pipeline ∈ t.offers := by
  rw [DistributedTurn.offers, h]
  exact List.mem_append_right _ (List.mem_singleton_self pipeline)

namespace Walks

variable (h : Walks cfg t A P Q)
include h

theorem switchTo {pipeline : π} (hmem : pipeline ∈ t.offers) (hst : P st) :
    P (st.switchTo pipeline) :=
  h.flags false st.stopped (h.switch hmem hst)

theorem checkReconfigured (hst : P st) : P (st.checkReconfigured t) := by
  unfold DistributedState.checkReconfigured
  split
  · next pipeline hnew =>
    refine h.switchTo ?_ hst
    simp [DistributedTurn.offers, hnew]
  · exact hst

theorem buryDead (hst : P st) : P (st.buryDead cfg t) := by
  unfold DistributedState.buryDead
  split
  · exact hst
  · have habort := h.abort hst
    split
    · next pipeline hmodel hnew =>
      refine h.switch ?_ habort
      simp [DistributedTurn.offers, hnew]
    · exact h.reject _ (h.flags true _ habort)

theorem rebalance (hst : P st) : P (st.rebalance cfg t) := by
  unfold DistributedState.rebalance
  split
  · split
    · next pipeline hnew =>
      refine h.switch ?_ hst
      simp [DistributedTurn.offers, hnew]
    · exact h.flags true st.stopped hst
  · exact hst

section

variable (hfresh : ∀ req, t.wakeup = .request req → A st.received [req]) (hst : P st)
include hfresh hst

/-- What ends a wait of a degraded pipeline. -/
theorem waitDegraded :
    P (st.waitDegraded t) ∧ Woken t st (st.waitDegraded t) ∧
      ((st.waitDegraded t).active.keys = [] ∨ (st.waitDegraded t).stopped = st.stopped ∧
        (st.waitDegraded t).pipelineDegraded = st.pipelineDegraded) := by
  have hrejected := h.reject "pipeline degraded: waiting for reconfiguration" hst
  unfold DistributedState.waitDegraded
  dsimp only
  split
  · next hempty =>
    have hnone : st.active.keys = [] := List.isEmpty_iff.1 hempty
    split
    · next pipeline hwakeup =>
      exact ⟨h.switchTo (mem_offers_of_wakeup hwakeup) hrejected, .inl rfl, .inl hnone⟩
    · next req hwakeup =>
      refine ⟨h.enqueue (hfresh req hwakeup) (fun req' hreq' => ?_) hrejected,
        .inr ⟨req, hwakeup, rfl⟩, .inl hnone⟩
      rw [List.mem_singleton.1 hreq']
      exact mem_arrivals_of_wakeup hwakeup
    · exact ⟨h.flags _ true hrejected, .inl rfl, .inl hnone⟩
    · exact ⟨hrejected, .inl rfl, .inl hnone⟩
  · exact ⟨hrejected, .inl rfl, .inr ⟨rfl, rfl⟩⟩

/-- A wait for work ends with a request, or while nothing runs. -/
theorem waitForWork :
    P (st.waitForWork t).1 ∧ Woken t st (st.waitForWork t).1 ∧
      ((st.waitForWork t).2 = false → (st.waitForWork t).1.active.keys = []) ∧
      ((st.waitForWork t).2 = true → (st.waitForWork t).1.stopped = st.stopped) := by
  unfold DistributedState.waitForWork
  split
  · next hempty =>
    rw [Bool.and_eq_true, List.isEmpty_iff, List.isEmpty_iff] at hempty
    split
    · next req hwakeup =>
      refine ⟨h.enqueue (hfresh req hwakeup) (fun req' hreq' => ?_) hst,
        .inr ⟨req, hwakeup, rfl⟩, nofun, fun _ => rfl⟩
      rw [List.mem_singleton.1 hreq']
      exact mem_arrivals_of_wakeup hwakeup
    · exact ⟨h.flags _ true hst, .inl rfl, fun _ => hempty.2, nofun⟩
    · exact ⟨hst, .inl rfl, fun _ => hempty.2, nofun⟩
    · next pipeline hwakeup =>
      exact ⟨h.switchTo (mem_offers_of_wakeup hwakeup) hst, .inl rfl, fun _ => hempty.2, nofun⟩
  · exact ⟨hst, .inl rfl, nofun, fun _ => rfl⟩

end

theorem serve (hst : P st) : Q (st.serve cfg t).1 (st.serve cfg t).2 := by
  have hadmitted := h.admitOne hst
  unfold DistributedState.serve
  dsimp only
  split
  · exact h.idle hadmitted
  · split
    · exact h.idle hadmitted
    · exact h.batch hadmitted

section

variable (st) (hsubmitted : A st.received t.submitted)
  (hwakeup : ∀ req, t.wakeup = .request req → A (st.received ++ t.submitted) [req]) (hst : P st)
include hsubmitted hwakeup hst

/-- **Where a turn ends**: it has nothing to run, waits for a pipeline, or
serves. -/
theorem cases : ∃ st', P st' ∧ st'.received.Sublist (st.received ++ t.arrivals) ∧
    (st.turn cfg t = (none, st') ∧ (st' = st ∧ st.stopped = true ∨ st'.active.keys = [] ∨
        st'.stopped = false ∧ st'.pipelineDegraded = true) ∨
      st.turn cfg t = st'.serve cfg t ∧ st'.stopped = false) := by
  have hsub : t.submitted.Sublist t.arrivals := List.sublist_append_left ..
  have hbetween := between_checkReconfigured t st
  have hreceived : ((st.checkReconfigured t).enqueue t.submitted).received =
      st.received ++ t.submitted := congrArg (· ++ _) hbetween.1
  have hstopped : ((st.checkReconfigured t).enqueue t.submitted).stopped = st.stopped :=
    hbetween.2
  have hstart : P ((st.checkReconfigured t).enqueue t.submitted) :=
    h.enqueue (hbetween.1 ▸ hsubmitted) (fun _ => mem_arrivals_of_submitted)
      (h.checkReconfigured hst)
  unfold DistributedState.turn
  split
  · next hstop => exact ⟨st, hst, List.sublist_append_left .., .inl ⟨rfl, .inl ⟨rfl, hstop⟩⟩⟩
  next hgoing =>
  dsimp only
  generalize (st.checkReconfigured t).enqueue t.submitted = st₁ at *
  split
  · next hidle =>
    rw [Bool.and_eq_true, List.isEmpty_iff] at hidle
    exact ⟨_, h.flags _ true hstart, hreceived ▸ (List.Sublist.refl _).append hsub,
      .inl ⟨rfl, .inr (.inl hidle.2)⟩⟩
  have hcontrol := h.rebalance (h.buryDead hstart)
  have hbetween' := (between_buryDead cfg t st₁).trans (between_rebalance cfg t _)
  have hreceived' := hbetween'.1.trans hreceived
  have hrunning : ((st₁.buryDead cfg t).rebalance cfg t).stopped = false := by
    rw [hbetween'.2, hstopped]
    simpa using hgoing
  generalize (st₁.buryDead cfg t).rebalance cfg t = st₂ at *
  rw [← hreceived'] at hwakeup
  have hsub' : ∀ {st₃ : DistributedState π}, Woken t st₂ st₃ →
      st₃.received.Sublist (st.received ++ t.arrivals) := by
    rintro st₃ (heq | ⟨req, hreq, heq⟩)
    · rw [heq, hreceived']
      exact (List.Sublist.refl _).append hsub
    · rw [heq, hreceived', DistributedTurn.arrivals, hreq, List.append_assoc]
  split
  · next hdegraded =>
    obtain ⟨hP, hwoken, hend⟩ := h.waitDegraded hwakeup hcontrol
    rw [hrunning, hdegraded] at hend
    exact ⟨_, hP, hsub' hwoken, .inl ⟨rfl, .inr hend⟩⟩
  · obtain ⟨hP, hwoken, hidle, hbusy⟩ := h.waitForWork hwakeup hcontrol
    split
    · next st₃ heq =>
      rw [heq] at hP hwoken hidle
      exact ⟨st₃, hP, hsub' hwoken, .inl ⟨rfl, .inr (.inl (hidle rfl))⟩⟩
    · next st₃ heq =>
      rw [heq] at hP hwoken hbusy
      exact ⟨st₃, hP, hsub' hwoken, .inr ⟨rfl, (hbusy rfl).trans hrunning⟩⟩

variable {st} in
/-- **What every phase keeps, the turn keeps.** -/
theorem turn : Q (st.turn cfg t).1 (st.turn cfg t).2 ∧
    (st.turn cfg t).2.received.Sublist (st.received ++ t.arrivals) := by
  obtain ⟨st', hP, hsub, ⟨hturn, -⟩ | ⟨hturn, -⟩⟩ := h.cases st hsubmitted hwakeup hst
  · rw [hturn]
    exact ⟨h.idle hP, hsub⟩
  · rw [hturn]
    exact ⟨h.serve hP, (between_serve cfg t st').1 ▸ hsub⟩

end

end Walks

/-- The turn of requests with ids of their own. -/
theorem Keeps.turn (h : Keeps cfg t P Q) (hfresh : st.Fresh t) (hst : P st) :
    Q (st.turn cfg t).1 (st.turn cfg t).2 ∧
      (st.turn cfg t).2.received.Sublist (st.received ++ t.arrivals) := by
  refine Walks.turn h ?_ (fun req hreq => ?_) hst
  · have hsub : (st.received ++ t.submitted).Sublist (st.received ++ t.arrivals) :=
      (List.Sublist.refl _).append (List.sublist_append_left ..)
    exact (hsub.map _).nodup hfresh
  · unfold Fresh DistributedTurn.arrivals at hfresh
    rw [hreq, ← List.append_assoc] at hfresh
    exact hfresh

/-- **The loop returns only when nothing runs.** -/
theorem active_of_stopped (hst : st.stopped = true → st.active.keys = []) :
    (st.turn cfg t).2.stopped = true → (st.turn cfg t).2.active.keys = [] := by
  have hwalks : Walks cfg t (fun _ _ => True) (fun _ => True) (fun _ _ => True) := by
    constructor <;> intros <;> trivial
  obtain ⟨st', -, -, ⟨hturn, hend⟩ | ⟨hturn, hgoing⟩⟩ :=
    hwalks.cases st trivial (fun _ _ => trivial) trivial
  · rw [hturn]
    rcases hend with ⟨rfl, -⟩ | hnone | ⟨hgoing, -⟩
    · exact hst
    · exact fun _ => hnone
    · exact fun hstop => absurd hstop (by simp [hgoing])
  · rw [hturn, (between_serve cfg t st').2]
    exact fun hstop => absurd hstop (by simp [hgoing])

end Turn

end DistributedState

end Fracture
