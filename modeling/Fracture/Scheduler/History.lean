import Fracture.Scheduler.Iteration

/-!
# The course of a sequence

Over a run of the loop a sequence waits, is admitted, runs for some
turns, and is over. Its history is what the decisions held for it, the
tokens drawn for it and the events sent to its client. `Course` is a rule
for properties of that history: what planning a turn and concluding it
keep, every run keeps.
-/

namespace Fracture

open Assoc Runs PagedKvCacheManager BatchScheduler

variable {R W F : Type}

/-- A job of either kind. -/
inductive Job
  | prefill (job : PrefillJob)
  | decode (job : DecodeJob)

/-- The jobs of a share. -/
def Share.jobs (share : Share) : List Job :=
  share.prefills.map .prefill ++ share.decodes.map .decode

/-- What a run has done with one sequence. -/
structure History where
  /-- All its jobs, in the order of the decisions. -/
  jobs : List Job := []
  prefills : List PrefillJob := []
  decodes : List DecodeJob := []
  drawn : List ℕ := []
  events : List GenerationEvent := []

namespace History

/-- A share of a decision is added. -/
def plan (h : History) (share : Share) : History :=
  { h with
    jobs := h.jobs ++ share.jobs
    prefills := h.prefills ++ share.prefills
    decodes := h.decodes ++ share.decodes
    events := h.events ++ share.events }

/-- Tokens are drawn and events sent. -/
def conclude (h : History) (drawn : List ℕ) (events : List GenerationEvent) : History :=
  { h with drawn := h.drawn ++ drawn, events := h.events ++ events }

/-- The prompt tokens fed, chunk after chunk. -/
def tokens (h : History) : List ℕ := h.prefills.flatMap (·.tokenIds)

/-- The positions they were fed at. -/
def positions (h : History) : List ℕ := h.prefills.flatMap (·.positions)

@[simp] theorem plan_idle (h : History) : h.plan {} = h := by simp [plan, Share.jobs]

@[simp] theorem conclude_nil (h : History) : h.conclude [] [] = h := by simp [conclude]

end History

namespace Trace

/-- All requests submitted in a run. -/
def submitted (tr : Trace R F) : List PendingRequest := tr.logs.flatMap (·.submitted)

/-- The history of one sequence. -/
def historyOf (tr : Trace R F) (id : ℕ) : History :=
  { jobs := tr.logs.flatMap fun log => (log.decision.shareOf [] id).jobs
    prefills := tr.logs.flatMap (·.decision.prefillsOf id)
    decodes := tr.logs.flatMap (·.decision.decodesOf id)
    drawn := tr.logs.flatMap fun log => drawnOf id log.sampled
    events := eventsOf id tr.state.events }

/-- The entry of one sequence among the running ones. -/
def entryOf (tr : Trace R F) (id : ℕ) : Option ActiveSequence := tr.state.scheduler.active.lookup id

/-- The requests of a turn have ids that were not used before. -/
def Fresh (tr : Trace R F) (t : Turn F) : Prop :=
  ((tr.submitted ++ t.submitted).map (·.seqId)).Nodup

/-- The state is sane, and all it knows of was submitted. -/
structure Sane (tr : Trace R F) : Prop where
  state : tr.state.Sane
  queued : ∀ req ∈ tr.state.scheduler.prefillQueue, req ∈ tr.submitted
  running : ∀ {id seq}, tr.entryOf id = some seq → id ∈ tr.submitted.map (·.seqId)

theorem submitted_next (e : Engine R W F) (tr : Trace R F) (t : Turn F) :
    (tr.next e t).submitted = tr.submitted ++ t.submitted := by
  have hlog : (tr.state.turn e t).1.submitted = t.submitted := by
    unfold LoopState.turn
    split
    · rfl
    · dsimp only
      split <;> rfl
  simp only [submitted, next, List.flatMap_append, List.flatMap_singleton, hlog]

variable {tr : Trace R F} {t : Turn F}

theorem Fresh.ne (h : tr.Fresh t) {req req' : PendingRequest} (hold : req ∈ tr.submitted)
    (hnew : req' ∈ t.submitted) : req.seqId ≠ req'.seqId := by
  rw [Fresh, List.map_append] at h
  exact (List.nodup_append.1 h).2.2 _ (List.mem_map_of_mem hold) _ (List.mem_map_of_mem hnew)

/-- All that waits in a turn was submitted. -/
theorem Sane.queued_enqueued (h : tr.Sane) :
    ∀ req ∈ (tr.state.enqueued t).prefillQueue, req ∈ tr.submitted ++ t.submitted :=
  List.forall_mem_append.2 ⟨fun req hreq => List.mem_append_left _ (h.queued req hreq),
    fun _ => List.mem_append_right _⟩

theorem Sane.fresh (h : tr.Sane) (hfresh : tr.Fresh t) : t.Fresh tr.state := by
  refine ⟨?_, fun req hreq => ?_⟩
  · rw [List.map_append, List.nodup_append]
    refine ⟨h.state.nodup, ?_, fun id hid id' hid' => ?_⟩
    · rw [Fresh, List.map_append] at hfresh
      exact (List.nodup_append.1 hfresh).2.1
    · obtain ⟨req, hreq, rfl⟩ := List.mem_map.1 hid
      obtain ⟨req', hreq', rfl⟩ := List.mem_map.1 hid'
      exact hfresh.ne (h.queued req hreq) hreq'
  · cases hseq : tr.state.scheduler.active.lookup req.seqId with
    | none => rfl
    | some seq =>
      obtain ⟨req', hold, hid⟩ := List.mem_map.1 (h.running hseq)
      exact absurd hid (hfresh.ne hold hreq)

/-- A loop that is down does nothing. -/
theorem next_of_poisoned (e : Engine R W F) (h : tr.state.poisoned = true) (t : Turn F) :
    (tr.next e t).state = tr.state ∧ ∀ id, (tr.next e t).historyOf id = tr.historyOf id := by
  have hturn : tr.state.turn e t = (⟨t.submitted, ⟨[], [], 0⟩, [], .notRun, []⟩, tr.state) := by
    rw [LoopState.turn, if_pos h]
  rw [next, hturn]
  refine ⟨rfl, fun id => ?_⟩
  simp [historyOf, SchedulerDecision.shareOf, SchedulerDecision.prefillsOf,
    SchedulerDecision.decodesOf, Share.jobs, drawnOf]

section Step

variable {e : Engine R W F} {tr : Trace R F} {t : Turn F} {c₁ : PagedKvCacheManager R}
  {events : List (ℕ × GenerationEvent)}

/-- One turn, seen from one sequence. -/
theorem each_next
    (h : TurnDone t tr.state c₁ events (tr.state.turn e t).1 (tr.state.turn e t).2) (id : ℕ) :
    ∃ planned drawn sent,
      Scheduled (tr.state.enqueued t) t.closed tr.state.cache c₁ id (tr.entryOf id)
        ((tr.state.turn e t).1.decision.shareOf events id) planned ∧
      Concluded t (tr.state.turn e t).1.result id
        ((tr.state.turn e t).1.decision.shareOf events id) planned drawn sent
        ((tr.next e t).entryOf id) ∧
      (tr.next e t).historyOf id = ((tr.historyOf id).plan
        ((tr.state.turn e t).1.decision.shareOf events id)).conclude drawn sent := by
  obtain ⟨sent, hsent, planned, sent', hplan, hconcluded, rfl⟩ := h.each id
  refine ⟨planned, _, sent', hplan, hconcluded, ?_⟩
  simp only [historyOf, next, History.plan, History.conclude, List.flatMap_append,
    List.flatMap_singleton, hsent, List.append_assoc]
  rfl

/-- A turn leaves the run sane. -/
theorem Sane.next (h : tr.Sane)
    (hdone : TurnDone t tr.state c₁ events (tr.state.turn e t).1 (tr.state.turn e t).2) :
    (tr.next e t).Sane := by
  refine ⟨hdone.sane, fun req hreq => ?_, fun {id seq} hseq => ?_⟩ <;> rw [submitted_next]
  · exact h.queued_enqueued req (hdone.queue.subset hreq)
  · obtain ⟨planned, drawn, sent, hplan, hconcluded, -⟩ := each_next hdone id
    rw [hseq] at hconcluded
    obtain ⟨seq', rfl, -⟩ := hconcluded.handle_eq
    rcases hplan.known with ⟨old, hold⟩ | ⟨req, hreq, rfl⟩
    · rw [List.map_append]
      exact List.mem_append_left _ (h.running hold)
    · exact List.mem_map_of_mem (h.queued_enqueued req hreq)

end Step

end Trace

/-! ## A rule for histories -/

section

variable (P : PendingRequest → ActiveSequence → History → Prop)
  (M : PendingRequest → Share → ActiveSequence → History → Prop)
  (Q : PendingRequest → History → Prop)

/-- What is to hold at the end of a turn: of a running sequence, or of
one that is over. -/
def Ends (req : PendingRequest) :
    Option ActiveSequence → History → Prop
  | some seq, h => P req seq h
  | none, h => Q req h

/-- Properties of a sequence's history that turns keep: `P` of a running
sequence between turns, `M` of one that has been planned for, `Q` of one
that is over. `S` is asked of the requests, `C` of the turns. -/
structure Course (S : PendingRequest → Prop) (C : Turn F → ForwardResult F → Prop)
    (P : PendingRequest → ActiveSequence → History → Prop)
    (M : PendingRequest → Share → ActiveSequence → History → Prop)
    (Q : PendingRequest → History → Prop) : Prop where
  enter : ∀ {req handle n}, S req → n ≤ req.promptTokens.length →
    (req.promptTokens ≠ [] → 0 < n) →
    M req { prefills := [firstJob req handle n] } (activate req handle n)
      (History.plan {} { prefills := [firstJob req handle n] })
  reject : ∀ {req} (message), S req → Q req { events := [.error message] }
  idle : ∀ {req seq h}, P req seq h → M req {} seq h
  decode : ∀ {req seq h}, P req seq h → seq.remainingPrefill = [] →
    M req { decodes := [decodeJob req.seqId seq] } seq
      (h.plan { decodes := [decodeJob req.seqId seq] })
  chunk : ∀ {req seq h n}, P req seq h → 0 < n → n ≤ seq.remainingPrefill.length →
    M req { prefills := [chunkJob req.seqId seq n] } (afterChunk seq n)
      (h.plan { prefills := [chunkJob req.seqId seq n] })
  conclude : ∀ {req share seq h t result drawn events after}, M req share seq h → C t result →
    result ≠ .panicked → Concluded t result req.seqId share (some seq) drawn events after →
    Ends P Q req after (h.conclude drawn events)

/-- Where a sequence is in its course. -/
inductive Progress (P : PendingRequest → ActiveSequence → History → Prop)
    (Q : PendingRequest → History → Prop) (submitted queue : List PendingRequest) (id : ℕ) :
    Option ActiveSequence → History → Prop
  /-- Not submitted, or not admitted. -/
  | unborn : Progress P Q submitted queue id none {}
  | running {req seq h} (hmem : req ∈ submitted) (hid : req.seqId = id) (hP : P req seq h) :
    Progress P Q submitted queue id (some seq) h
  | ended {req h} (hmem : req ∈ submitted) (hid : req.seqId = id)
    (hqueue : ∀ r ∈ queue, r.seqId ≠ id) (hQ : Q req h) : Progress P Q submitted queue id none h

/-- In a loop that went down in the middle of a turn, sequences are as
planned. -/
def Kept (poisoned : Bool) (req : PendingRequest) (seq : ActiveSequence) (h : History) : Prop :=
  P req seq h ∨ poisoned = true ∧ ∃ share, M req share seq h

/-- Every sequence is somewhere in its course. -/
def Trace.OnCourse (tr : Trace R F) : Prop :=
  ∀ id, Progress (Kept P M tr.state.poisoned) Q tr.submitted tr.state.scheduler.prefillQueue id
    (tr.entryOf id) (tr.historyOf id)

end

namespace Progress

variable {P : PendingRequest → ActiveSequence → History → Prop}
  {Q : PendingRequest → History → Prop} {submitted queue : List PendingRequest} {id : ℕ}
  {entry : Option ActiveSequence} {h : History}
  (hprogress : Progress P Q submitted queue id entry h)
include hprogress

/-- What holds of a running sequence. -/
theorem of_running {seq : ActiveSequence} (hentry : entry = some seq) :
    ∃ req ∈ submitted, req.seqId = id ∧ P req seq h := by
  cases hprogress with
  | running hmem hid hP =>
    cases hentry
    exact ⟨_, hmem, hid, hP⟩
  | unborn => cases hentry
  | ended => cases hentry

/-- More may have been submitted, and less be known of the running ones. -/
theorem mono {P' : PendingRequest → ActiveSequence → History → Prop}
    {submitted' : List PendingRequest} (hsub : submitted ⊆ submitted')
    (hP : ∀ {req seq h}, P req seq h → P' req seq h) :
    Progress P' Q submitted' queue id entry h := by
  cases hprogress with
  | unborn => exact .unborn
  | running hmem hid h => exact .running (hsub hmem) hid (hP h)
  | ended hmem hid hqueue h => exact .ended (hsub hmem) hid hqueue h

/-- What holds of every history. -/
theorem of_all {T : History → Prop} (hnil : T {}) (hP : ∀ {req seq h}, P req seq h → T h)
    (hQ : ∀ {req h}, Q req h → T h) : T h := by
  cases hprogress with
  | unborn => exact hnil
  | running _ _ h => exact hP h
  | ended _ _ _ h => exact hQ h

end Progress

namespace Course

variable {S : PendingRequest → Prop} {C : Turn F → ForwardResult F → Prop}
  {P : PendingRequest → ActiveSequence → History → Prop}
  {M : PendingRequest → Share → ActiveSequence → History → Prop}
  {Q : PendingRequest → History → Prop} {e : Engine R W F} {tr : Trace R F} {t : Turn F}
  {c₁ : PagedKvCacheManager R} {events : List (ℕ × GenerationEvent)}

/-- From a planned sequence to the end of the turn. -/
theorem finish (hc : Course S C P M Q) {result : ForwardResult F} (hC : C t result)
    {poisoned : Bool} (hpanic : result = .panicked → poisoned = true)
    {submitted queue : List PendingRequest} {req : PendingRequest} {share : Share}
    {seq : ActiveSequence} {h : History} {drawn : List ℕ} {sent : List GenerationEvent}
    {after : Option ActiveSequence} (hmem : req ∈ submitted)
    (hqueue : ∀ r ∈ queue, r.seqId ≠ req.seqId) (hM : M req share seq h)
    (hconcluded : Concluded t result req.seqId share (some seq) drawn sent after) :
    Progress (Kept P M poisoned) Q submitted queue req.seqId after (h.conclude drawn sent) := by
  by_cases hresult : result = .panicked
  · cases hconcluded with
    | crashed =>
      rw [History.conclude_nil]
      exact .running hmem rfl (.inr ⟨hpanic hresult, share, hM⟩)
    | idle h => cases hresult.symm.trans h
    | run h => cases hresult.symm.trans h
    | spared h => cases hresult.symm.trans h
    | aborted h => cases hresult.symm.trans h
  · have hend := hc.conclude hM hC hresult hconcluded
    cases after with
    | none => exact .ended hmem rfl hqueue hend
    | some seq' => exact .running hmem rfl (.inl hend)

/-- In a loop that is up, no sequence is in the middle of a turn. -/
theorem progress_of_up (hon : tr.OnCourse P M Q) (hup : tr.state.poisoned = false) (id : ℕ) :
    Progress P Q tr.submitted tr.state.scheduler.prefillQueue id (tr.entryOf id)
      (tr.historyOf id) := by
  refine (hon id).mono (List.Subset.refl _) fun hkept => hkept.resolve_right fun hdown => ?_
  cases hup.symm.trans hdown.1

variable (hc : Course S C P M Q) (hsane : tr.Sane) (hfresh : tr.Fresh t)
  (hS : ∀ req ∈ tr.submitted ++ t.submitted, S req) (hC : C t (tr.state.turn e t).1.result)
include hc hsane hfresh hS hC

/-- A turn, seen from one sequence. -/
theorem step_each
    (hdone : TurnDone t tr.state c₁ events (tr.state.turn e t).1 (tr.state.turn e t).2) {id : ℕ}
    (hid : Progress P Q tr.submitted tr.state.scheduler.prefillQueue id (tr.entryOf id)
      (tr.historyOf id)) :
    Progress (Kept P M (tr.next e t).state.poisoned) Q (tr.submitted ++ t.submitted)
      (tr.next e t).state.scheduler.prefillQueue id ((tr.next e t).entryOf id)
      ((tr.next e t).historyOf id) := by
  obtain ⟨planned, drawn, sent, hplan, hconcluded, hhistory⟩ := Trace.each_next hdone id
  have hpanic : (tr.state.turn e t).1.result = .panicked → (tr.next e t).state.poisoned = true :=
    fun hresult => hdone.poisoned.2 (.inr hresult)
  have hqueued : ∀ req ∈ (tr.state.enqueued t).prefillQueue, req ∈ tr.submitted ++ t.submitted :=
    hsane.queued_enqueued
  -- An id that was submitted before and is not in the queue does not come back to it.
  have hgone : (∃ req ∈ tr.submitted, req.seqId = id) →
      (∀ r ∈ tr.state.scheduler.prefillQueue, r.seqId ≠ id) →
      ∀ r ∈ (tr.state.enqueued t).prefillQueue, r.seqId ≠ id := by
    rintro ⟨req, hreq, rfl⟩ hqueue
    exact List.forall_mem_append.2 ⟨hqueue, fun r hr => (hfresh.ne hreq hr).symm⟩
  rw [hhistory]
  cases hentry : tr.entryOf id with
  | none =>
    rw [hentry] at hid hplan
    generalize hold : tr.historyOf id = h at hid ⊢
    generalize hshare : (tr.state.turn e t).1.decision.shareOf events id = share at hplan hconcluded ⊢
    have hnotWaiting : share ≠ {} →
        ∀ r ∈ (tr.next e t).state.scheduler.prefillQueue, r.seqId ≠ id := by
      rintro hne r hr rfl
      exact hne (hshare.symm.trans (hdone.waiting r hr))
    cases hid with
    | unborn =>
      cases hplan with
      | idle =>
        obtain ⟨rfl, rfl, hafter⟩ := hconcluded.of_none
        rw [hafter, History.plan_idle, History.conclude_nil]
        exact .unborn
      | enter hmem hreq hle hpos =>
        subst hreq
        exact hc.finish hC hpanic (hqueued _ hmem) (hnotWaiting fun h => by cases h)
          (hc.enter (hS _ (hqueued _ hmem)) hle hpos) hconcluded
      | reject hmem hreq =>
        subst hreq
        obtain ⟨rfl, rfl, hafter⟩ := hconcluded.of_none
        rw [hafter, History.conclude_nil]
        exact .ended (hqueued _ hmem) rfl (hnotWaiting fun h => by cases h)
          (hc.reject _ (hS _ (hqueued _ hmem)))
    | ended hmem hreq hqueue hQ =>
      have hnever := hgone ⟨_, hmem, hreq⟩ hqueue
      cases hplan with
      | idle =>
        obtain ⟨rfl, rfl, hafter⟩ := hconcluded.of_none
        rw [hafter, History.plan_idle, History.conclude_nil]
        exact .ended (List.mem_append_left _ hmem) hreq (fun r hr => hnever r (hdone.queue.subset hr))
          hQ
      | enter hmem' hreq' => exact absurd hreq' (hnever _ hmem')
      | reject hmem' hreq' => exact absurd hreq' (hnever _ hmem')
  | some seq =>
    rw [hentry] at hid hplan
    generalize hold : tr.historyOf id = h at hid ⊢
    generalize (tr.state.turn e t).1.decision.shareOf events id = share at hplan hconcluded ⊢
    cases hid with
    | running hmem hreq hP =>
      subst hreq
      have hnever := hgone ⟨_, hmem, rfl⟩ fun r hr heq => by
        have hnone := hsane.state.notActive r hr
        rw [heq] at hnone
        cases hnone.symm.trans hentry
      have hgone' := fun r hr => hnever r (hdone.queue.subset hr)
      have hmem' := List.mem_append_left t.submitted hmem
      cases hplan with
      | idle =>
        rw [History.plan_idle]
        exact hc.finish hC hpanic hmem' hgone' (hc.idle hP) hconcluded
      | decode hdone _ => exact hc.finish hC hpanic hmem' hgone' (hc.decode hP hdone) hconcluded
      | chunk hpos hle => exact hc.finish hC hpanic hmem' hgone' (hc.chunk hP hpos hle) hconcluded

/-- **One turn moves every sequence on in its course.** -/
theorem step (hon : tr.OnCourse P M Q) : (tr.next e t).OnCourse P M Q := by
  intro id
  rw [Trace.submitted_next]
  cases hclean : tr.state.poisoned with
  | true =>
    obtain ⟨hstate, hhistory⟩ := Trace.next_of_poisoned e hclean t
    rw [Trace.entryOf, hstate, hhistory]
    exact (hon id).mono (List.subset_append_left _ _) fun hkept => hkept
  | false =>
    obtain ⟨c₁, events, hdone⟩ := turnDone e hsane.state (hsane.fresh hfresh)
    exact hc.step_each hsane hfresh hS hC hdone (progress_of_up hon hclean id)

end Course

/-! ## Runs -/

section Run

variable {fresh : ℕ → ℕ → Except FractureError (List R × List R)}
  {numBlocks numLayers numKvHeads headDim maxBatchSize maxBatchTokens maxPrefillTokens : ℕ}
  {reservedBlocks : ℕ → ℕ} {cache : PagedKvCacheManager R}

/-- A run starts with no sequence and a new cache. -/
theorem Trace.sane_start
    (hnew : PagedKvCacheManager.new fresh numBlocks numLayers numKvHeads headDim = .ok cache)
    (maxBatchSize maxBatchTokens maxPrefillTokens : ℕ) (reservedBlocks : ℕ → ℕ) :
    (Trace.start (F := F) (BatchScheduler.new maxBatchSize maxBatchTokens maxPrefillTokens
      reservedBlocks) cache).Sane := by
  have hnone : ∀ h, cache.lenOf h = none := fun h => by
    rw [lenOf, (new_eq_ok hnew).2.2.2.1]
    rfl
  refine ⟨⟨⟨?_, ?_, ?_, fun hlive => ?_⟩, ⟨List.nodup_nil, List.forall_mem_nil _⟩, .of_new hnew⟩,
    List.forall_mem_nil _, ?_⟩
  · intro id seq hseq
    cases hseq
  · intro id seq hseq
    cases hseq
  · intro id id' seq seq' hseq
    cases hseq
  · rw [Trace.start, hnone] at hlive
    cases hlive
  · intro id seq hseq
    cases hseq

theorem Trace.submitted_run (e : Engine R W F) (tr : Trace R F) (turns : List (Turn F)) :
    (Runs.run (Trace.next e) tr turns).submitted =
      tr.submitted ++ turns.flatMap (·.submitted) := by
  induction turns generalizing tr with
  | nil => simp [Runs.run]
  | cons t turns ih =>
    change (Runs.run (Trace.next e) (tr.next e t) turns).submitted = _
    rw [ih, Trace.submitted_next, List.flatMap_cons, List.append_assoc]

variable {turns : List (Turn F)}

/-- Submissions with ids of their own are fresh in every turn. -/
theorem Trace.throughout_fresh (e : Engine R W F) (tr : Trace R F)
    (hids : ((tr.submitted ++ turns.flatMap (·.submitted)).map (·.seqId)).Nodup) :
    Throughout (Trace.next e) Trace.Fresh tr turns := by
  induction turns generalizing tr with
  | nil => trivial
  | cons t turns ih =>
    rw [List.flatMap_cons, ← List.append_assoc] at hids
    refine ⟨?_, ih _ (by rwa [Trace.submitted_next])⟩
    rw [List.map_append] at hids
    exact (List.nodup_append.1 hids).1

/-- A turn with new ids keeps the loop sane. -/
theorem Trace.Sane.step (e : Engine R W F) {tr : Trace R F} {t : Turn F} (hsane : tr.Sane)
    (hfresh : tr.Fresh t) : (tr.next e t).Sane := by
  obtain ⟨c₁, events, hdone⟩ := turnDone e hsane.state (hsane.fresh hfresh)
  exact hsane.next hdone

variable {S : PendingRequest → Prop} {C : Turn F → ForwardResult F → Prop}
  {P : PendingRequest → ActiveSequence → History → Prop}
  {M : PendingRequest → Share → ActiveSequence → History → Prop}
  {Q : PendingRequest → History → Prop}

/-- **Every run keeps every sequence on its course.** -/
theorem Course.run (hc : Course S C P M Q) {e : Engine R W F} {tr : Trace R F} (hsane : tr.Sane)
    (hS : ∀ req ∈ tr.submitted, S req) (hon : tr.OnCourse P M Q)
    (hturns : Throughout (Trace.next e) (fun tr t => tr.Fresh t ∧ (∀ req ∈ t.submitted, S req) ∧ C
      t (tr.state.turn e t).1.result) tr turns) :
    (Runs.run (Trace.next e) tr turns).Sane ∧ (Runs.run (Trace.next e) tr turns).OnCourse P M Q := by
  have hrun := hturns.invariant
    (fun tr => tr.Sane ∧ (∀ req ∈ tr.submitted, S req) ∧ tr.OnCourse P M Q) ⟨hsane, hS, hon⟩ ?_
  · exact ⟨hrun.1, hrun.2.2⟩
  · rintro tr t ⟨hsane, hS, hon⟩ ⟨hfresh, hSt, hC⟩
    have hS' : ∀ req ∈ tr.submitted ++ t.submitted, S req := List.forall_mem_append.2 ⟨hS, hSt⟩
    exact ⟨hsane.step e hfresh, by rwa [Trace.submitted_next], hc.step hsane hfresh hS' hC hon⟩

/-- From the start of the loop on. -/
theorem Course.serve (hc : Course S C P M Q) (e : Engine R W F)
    (hnew : PagedKvCacheManager.new fresh numBlocks numLayers numKvHeads headDim = .ok cache)
    (maxBatchSize maxBatchTokens maxPrefillTokens : ℕ) (reservedBlocks : ℕ → ℕ)
    (hids : ((turns.flatMap (·.submitted)).map (·.seqId)).Nodup)
    (hS : ∀ req ∈ turns.flatMap (·.submitted), S req)
    (hC : Throughout (Trace.next e) (fun tr t => C t (tr.state.turn e t).1.result) (Trace.start
      (BatchScheduler.new maxBatchSize maxBatchTokens maxPrefillTokens reservedBlocks) cache) turns) :
    (Trace.serve e (BatchScheduler.new maxBatchSize maxBatchTokens maxPrefillTokens reservedBlocks)
      cache turns).Sane ∧
    (Trace.serve e (BatchScheduler.new maxBatchSize maxBatchTokens maxPrefillTokens reservedBlocks)
      cache turns).OnCourse P M Q := by
  have hfresh := Trace.throughout_fresh e (Trace.start (BatchScheduler.new maxBatchSize
    maxBatchTokens maxPrefillTokens reservedBlocks) cache) hids
  have hsubmitted : ∀ t ∈ turns, ∀ req ∈ t.submitted, S req := List.forall_mem_flatMap.1 hS
  exact hc.run (Trace.sane_start hnew ..) (by simp [Trace.start, Trace.submitted])
    (fun _ => .unborn) (hfresh.and ((throughout_of_forall hsubmitted).and hC))

end Run

end Fracture
