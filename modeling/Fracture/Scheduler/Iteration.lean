import Fracture.Scheduler.Turn

/-!
# A whole turn, sequence by sequence

`Turned` says all that one turn of the loop can do to a sequence: plan,
and then, as the forward pass goes, sample and clean up, abort, or stop.
`turnDone` derives it from the code once; what holds over whole runs is
read off it.
-/

namespace Fracture

open Assoc Effect PagedKvCacheManager BatchScheduler

variable {R W F : Type}

/-- A batched pass that comes through has one row of logits per slice. -/
theorem length_batchedForward {b : Backend R W F} {weights : WeightStore W} {range : LayerRange}
    {sequences : List SequenceSlice} {c c' : PagedKvCacheManager R} {logits : List (List F)}
    (hok : batchedForward b weights range sequences c = .ok logits c') :
    logits.length = sequences.length := by
  rcases batchedForward_inv hok with ⟨rfl, rfl, -⟩ |
    ⟨starts, x, attnOut, y, normed, hstarts, -, hlogits⟩
  · rfl
  · have hstartsLen := length_of_except_mapM hstarts
    rw [length_of_except_mapM hlogits, length_place _ _ (by simpa using hstartsLen),
      List.length_map]

/-- The running sequences are in their caches, the queue is apart from
them, and every block is accounted for. -/
structure LoopState.Sane (st : LoopState R) : Prop extends
    Housed st.scheduler.active st.cache, Waiting st.scheduler.prefillQueue st.scheduler.active where
  accounted : st.cache.Accounted

/-- The requests of a turn have ids of their own. -/
structure Turn.Fresh (st : LoopState R) (t : Turn F) : Prop where
  nodup : ((st.scheduler.prefillQueue ++ t.submitted).map (·.seqId)).Nodup
  notActive : ∀ req ∈ t.submitted, st.scheduler.active.lookup req.seqId = none

/-- The scheduler once the requests of a turn are in its queue. -/
def LoopState.enqueued (st : LoopState R) (t : Turn F) : BatchScheduler :=
  { st.scheduler with prefillQueue := st.scheduler.prefillQueue ++ t.submitted }

theorem foldl_enqueue (s : BatchScheduler) (reqs : List PendingRequest) :
    reqs.foldl enqueue s = { s with prefillQueue := s.prefillQueue ++ reqs } := by
  induction reqs generalizing s with
  | nil => simp
  | cons req reqs ih => rw [List.foldl_cons, ih, enqueue, List.append_assoc]; rfl

/-- How a turn goes on for one sequence after planning: its entry then,
the tokens drawn, the events sent, its entry at the end. -/
inductive Concluded (t : Turn F) (result : ForwardResult F) (id : ℕ) (share : Share) :
    Option ActiveSequence → List ℕ → List GenerationEvent → Option ActiveSequence → Prop
  /-- There was no token to run. -/
  | idle {planned} (hresult : result = .notRun) (hdecodes : share.decodes = [])
    (hprefills : ∀ pf ∈ share.prefills, pf.tokenIds = []) :
    Concluded t result id share planned [] [] planned
  | run {planned drawn events sampled events' after rows row} (hresult : result = .logits rows)
    (hrow : row = none ↔ share.prefills = [] ∧ share.decodes = [])
    (hsampled : Sampled t.sample id row planned drawn events sampled)
    (hcleaned : Cleaned t.cleanupClosed id sampled events' after) :
    Concluded t result id share planned drawn (events ++ events') after
  /-- The pass failed without this sequence. -/
  | spared {planned e} (hresult : result = .failed e)
    (hjobs : share.prefills = [] ∧ share.decodes = []) :
    Concluded t result id share planned [] [] planned
  | aborted {planned e} (hresult : result = .failed e)
    (hjobs : ¬ (share.prefills = [] ∧ share.decodes = [])) :
    Concluded t result id share (some planned) [] [abortEvent e] none
  | crashed {planned} (hresult : result = .panicked) :
    Concluded t result id share planned [] [] planned

namespace Concluded

variable {t : Turn F} {result : ForwardResult F} {id : ℕ} {share : Share}
  {planned after : Option ActiveSequence} {drawn : List ℕ} {events : List GenerationEvent}
  (h : Concluded t result id share planned drawn events after)
include h

/-- A turn that ran no pass to its end leaves every sequence as planned. -/
theorem still (hresult : result = .notRun ∨ result = .panicked) :
    after = planned ∧ drawn = [] ∧ events = [] := by
  cases h with
  | idle => exact ⟨rfl, rfl, rfl⟩
  | crashed => exact ⟨rfl, rfl, rfl⟩
  | run hran => rcases hresult with hresult | hresult <;> cases hresult.symm.trans hran
  | spared hfailed => rcases hresult with hresult | hresult <;> cases hresult.symm.trans hfailed
  | aborted hfailed => rcases hresult with hresult | hresult <;> cases hresult.symm.trans hfailed

/-- After a failed pass the sequences of its batch are gone. -/
theorem failed {e : FractureError} (hresult : result = .failed e) :
    (share.prefills = [] ∧ share.decodes = []) ∧ after = planned ∨
      ¬ (share.prefills = [] ∧ share.decodes = []) ∧ after = none := by
  cases h with
  | spared _ hjobs => exact .inl ⟨hjobs, rfl⟩
  | aborted _ hjobs => exact .inr ⟨hjobs, rfl⟩
  | idle hidle => cases hresult.symm.trans hidle
  | run hran => cases hresult.symm.trans hran
  | crashed hcrashed => cases hresult.symm.trans hcrashed

/-- After a pass that came through, what is closed or finished is gone. -/
theorem ran {rows : List (List F)} (hresult : result = .logits rows) :
    ∃ row sampled sent sent', (row = none ↔ share.prefills = [] ∧ share.decodes = []) ∧
      Sampled t.sample id row planned drawn sent sampled ∧
      Cleaned t.cleanupClosed id sampled sent' after ∧ events = sent ++ sent' := by
  cases h with
  | run _ hrow hsampled hcleaned => exact ⟨_, _, _, _, hrow, hsampled, hcleaned, rfl⟩
  | idle hidle => cases hresult.symm.trans hidle
  | spared hfailed => cases hresult.symm.trans hfailed
  | aborted hfailed => cases hresult.symm.trans hfailed
  | crashed hcrashed => cases hresult.symm.trans hcrashed

end Concluded

variable {t : Turn F} {result : ForwardResult F} {id : ℕ} {share : Share} {drawn : List ℕ}
  {events : List GenerationEvent} {seq : ActiveSequence}

/-- A sequence with an entry at the end had one after planning, and is
concluded in the cache it was planned with. -/
theorem Concluded.handle_eq {planned : Option ActiveSequence}
    (h : Concluded t result id share planned drawn events (some seq)) :
    ∃ seq', planned = some seq' ∧ seq.handle = seq'.handle := by
  cases h with
  | idle => exact ⟨seq, rfl, rfl⟩
  | spared => exact ⟨seq, rfl, rfl⟩
  | crashed => exact ⟨seq, rfl, rfl⟩
  | run hresult hrow hsampled hcleaned =>
    cases hcleaned
    obtain ⟨seq', hseq', -, hhandle, -⟩ := hsampled.same rfl
    exact ⟨seq', hseq', hhandle⟩

/-- A turn leaves the rest of a prompt as planned, and all of a sequence
whose prompt is not through. -/
theorem Concluded.same {seq' : ActiveSequence}
    (h : Concluded t result id share (some seq) drawn events (some seq')) :
    seq'.remainingPrefill = seq.remainingPrefill ∧ (seq.remainingPrefill ≠ [] → seq' = seq) := by
  cases h with
  | idle => exact ⟨rfl, fun _ => rfl⟩
  | spared => exact ⟨rfl, fun _ => rfl⟩
  | crashed => exact ⟨rfl, fun _ => rfl⟩
  | run hresult hrow hsampled hcleaned =>
    cases hcleaned
    cases hsampled with
    | skip => exact ⟨rfl, fun _ => rfl⟩
    | draw hrow hdone => exact ⟨rfl, fun hne => absurd hdone hne⟩
    | fail hrow hdone => exact ⟨rfl, fun hne => absurd hdone hne⟩

/-- A sequence without an entry is left alone. -/
theorem Concluded.of_none {after : Option ActiveSequence}
    (h : Concluded t result id share none drawn events after) :
    drawn = [] ∧ events = [] ∧ after = none := by
  cases h with
  | idle => exact ⟨rfl, rfl, rfl⟩
  | spared => exact ⟨rfl, rfl, rfl⟩
  | crashed => exact ⟨rfl, rfl, rfl⟩
  | run hresult hrow hsampled hcleaned =>
    cases hsampled
    cases hcleaned
    exact ⟨rfl, rfl, rfl⟩

/-- What a turn can do with one sequence: its entry before, its share of
the decision, the tokens drawn, the events sent, its entry after. -/
def Turned (t : Turn F) (s : BatchScheduler) (c c₁ : PagedKvCacheManager R)
    (result : ForwardResult F) (id : ℕ) (before : Option ActiveSequence) (share : Share)
    (drawn : List ℕ) (sent : List GenerationEvent) (after : Option ActiveSequence) : Prop :=
  ∃ planned events, Scheduled s t.closed c c₁ id before share planned ∧
    Concluded t result id share planned drawn events after ∧ sent = share.events ++ events

section Turn

variable {e : Engine R W F} {t : Turn F} {st : LoopState R} {d : SchedulerDecision}

section

variable (e) (t : Turn F) (hclean : st.poisoned = false)
include hclean

/-- The four ways a turn goes once its batch is built. -/
theorem turn_cases {st₁ : LoopState R} (hplan : st.schedule t = (d, st₁)) :
    ((d.totalTokens = 0 ∨ batchEntries st₁.scheduler d = []) ∧
      st.turn e t = (⟨t.submitted, d, [], .notRun, []⟩, st₁)) ∨
    (d.totalTokens ≠ 0 ∧ batchEntries st₁.scheduler d ≠ []) ∧
      ((∃ logits c₂, batchedForward e.backend e.weights e.layerRange
          ((batchEntries st₁.scheduler d).map (·.slice)) st₁.cache = .ok logits c₂ ∧
        st.turn e t =
          (⟨t.submitted, d, batchEntries st₁.scheduler d, .logits logits,
              (finishTurn t (batchEntries st₁.scheduler d) logits { st₁ with cache := c₂ }).1⟩,
            (finishTurn t (batchEntries st₁.scheduler d) logits { st₁ with cache := c₂ }).2)) ∨
      (∃ err c₂, batchedForward e.backend e.weights e.layerRange
          ((batchEntries st₁.scheduler d).map (·.slice)) st₁.cache = .error (.error err) c₂ ∧
        st.turn e t =
          (⟨t.submitted, d, batchEntries st₁.scheduler d, .failed err, []⟩,
            (batchEntries st₁.scheduler d).foldl (abortEntry err) { st₁ with cache := c₂ })) ∨
      ∃ why c₂, batchedForward e.backend e.weights e.layerRange
          ((batchEntries st₁.scheduler d).map (·.slice)) st₁.cache = .error (.panicked why) c₂ ∧
        st.turn e t =
          (⟨t.submitted, d, batchEntries st₁.scheduler d, .panicked, []⟩,
            { st₁ with cache := c₂, poisoned := true })) := by
  unfold LoopState.turn
  rw [if_neg (by rw [hclean]; decide), hplan]
  dsimp only
  by_cases hidle : d.totalTokens = 0 ∨ batchEntries st₁.scheduler d = []
  · exact .inl ⟨hidle, if_pos hidle⟩
  · refine .inr ⟨not_or.1 hidle, ?_⟩
    rw [if_neg hidle]
    unfold runBatch
    cases hforward : batchedForward e.backend e.weights e.layerRange
        ((batchEntries st₁.scheduler d).map (·.slice)) st₁.cache with
    | ok logits c₂ => exact .inl ⟨logits, c₂, rfl, rfl⟩
    | error fault c₂ =>
      cases fault with
      | error err => exact .inr (.inl ⟨err, c₂, rfl, rfl⟩)
      | panicked why => exact .inr (.inr ⟨why, c₂, rfl, rfl⟩)

theorem decision_turn : (st.turn e t).1.decision = (st.schedule t).1 := by
  obtain ⟨d, st₁, hplan⟩ : ∃ d st₁, st.schedule t = (d, st₁) := ⟨_, _, rfl⟩
  rcases turn_cases e t hclean hplan with
    ⟨-, hturn⟩ | ⟨-, ⟨_, _, -, hturn⟩ | ⟨_, _, -, hturn⟩ | ⟨_, _, -, hturn⟩⟩ <;> rw [hturn, hplan]

end

/-- The queue with the requests of a turn. -/
theorem waiting_enqueued (hsane : st.Sane) (hfresh : t.Fresh st) :
    Waiting (st.enqueued t).prefillQueue (st.enqueued t).active :=
  ⟨hfresh.nodup, List.forall_mem_append.2 ⟨hsane.notActive, hfresh.notActive⟩⟩

/-- Building the batch of a turn. -/
theorem schedule_planned (hsane : st.Sane) (hfresh : t.Fresh st) :
    ∃ events, (st.schedule t).2.events = st.events ++ events ∧
      (st.schedule t).2.poisoned = st.poisoned ∧
      Planned (st.enqueued t) t.closed st.cache (st.schedule t).1 (st.schedule t).2.scheduler
        (st.schedule t).2.cache events := by
  have hplanned := planned (s := st.enqueued t) hsane.toHoused hsane.accounted
    (waiting_enqueued hsane hfresh) t.order t.closed
  refine ⟨((st.enqueued t).schedule t.order t.closed st.cache).2.2.2, ?_, rfl, ?_⟩ <;>
    rw [LoopState.schedule, foldl_enqueue]
  · rfl
  · exact hplanned

/-- What a turn leaves, and what it did with each sequence. -/
structure TurnDone (t : Turn F) (st : LoopState R) (c₁ : PagedKvCacheManager R)
    (events : List (ℕ × GenerationEvent)) (log : TurnLog F) (st' : LoopState R) : Prop where
  widened : Widened st.cache c₁
  each : ∀ id, ∃ sent, eventsOf id st'.events = eventsOf id st.events ++ sent ∧
    Turned t (st.enqueued t) st.cache c₁ log.result id (st.scheduler.active.lookup id)
      (log.decision.shareOf events id) (drawnOf id log.sampled) sent
      (st'.scheduler.active.lookup id)
  queue : st'.scheduler.prefillQueue.Sublist (st.scheduler.prefillQueue ++ t.submitted)
  waiting : ∀ req ∈ st'.scheduler.prefillQueue, log.decision.shareOf events req.seqId = {}
  sane : st'.Sane
  poisoned : st'.poisoned = true ↔ st.poisoned = true ∨ log.result = .panicked
  /-- A sequence that was removed has no cache, and its blocks are free. -/
  returned : ∀ {id seq}, st.scheduler.active.lookup id = some seq →
    st'.scheduler.active.lookup id = none → st'.cache.lenOf seq.handle = none ∧
      ∀ {blocks}, st.cache.sequences.lookup seq.handle = some blocks →
        blocks.blockTable ⊆ st'.cache.pool.freeList

variable {entries : List BatchEntry} {logits : List (List F)}

/-- Sampling and cleanup, seen from one sequence. -/
theorem finishTurn_each (t : Turn F) (st : LoopState R) (hlen : logits.length = entries.length)
    (hnodup : (entries.map (·.seqId)).Nodup)
    (hdecoding : ∀ entry ∈ entries, ∀ {seq}, st.scheduler.active.lookup entry.seqId = some seq →
      entry.isPrefill = false → seq.remainingPrefill = []) (id : ℕ) :
    ∃ row sampled events events',
      (row = none ↔ id ∉ entries.map (·.seqId)) ∧
      eventsOf id (finishTurn t entries logits st).2.events =
        eventsOf id st.events ++ events ++ events' ∧
      Sampled t.sample id row (st.scheduler.active.lookup id)
        (drawnOf id (finishTurn t entries logits st).1) events sampled ∧
      Cleaned t.cleanupClosed id sampled events'
        ((finishTurn t entries logits st).2.scheduler.active.lookup id) := by
  have hfst : (entries.zip logits).map (·.1.seqId) = entries.map (·.seqId) := by
    have hzip : (entries.zip logits).map Prod.fst = entries := List.map_fst_zip (by rw [hlen])
    nth_rewrite 2 [← hzip]
    rw [List.map_map]
    rfl
  obtain ⟨drawn, events, hsampled, hdrawn, hevents⟩ := sampleAll_each t.sample
    { active := st.scheduler.active, events := st.events, sampled := [] }
    (by rw [hfst]; exact hnodup)
    (fun p hp => hdecoding p.1 (List.of_mem_zip hp).1) id
  have hcleaned := cleanup_each { st.scheduler with active := (sampleAll t.sample
    { active := st.scheduler.active, events := st.events, sampled := [] } entries logits).active }
    t.cleanupOrder t.cleanupClosed id
  refine ⟨rowOf id (entries.zip logits), _, events, _, ?_, ?_, ?_, hcleaned⟩
  · rw [rowOf, Option.map_eq_none_iff, List.find?_eq_none, ← hfst]
    simp
  · change eventsOf id (_ ++ _) = _
    rw [eventsOf_append]
    exact congrArg (· ++ _) hevents
  · have hdrawn' : drawnOf id (finishTurn t entries logits st).1 = drawn := hdrawn
    rw [hdrawn']
    exact hsampled

/-- Sampling and cleanup leave the queue, and every sequence that stays in
its cache. -/
theorem finishTurn_housed (t : Turn F) (st : LoopState R) (hhoused : Housed st.scheduler.active st.cache)
    (entries : List BatchEntry) (logits : List (List F)) :
    Housed (finishTurn t entries logits st).2.scheduler.active
      (finishTurn t entries logits st).2.cache ∧
    (∃ handles, Freed handles st.cache (finishTurn t entries logits st).2.cache) ∧
    (finishTurn t entries logits st).2.scheduler.prefillQueue = st.scheduler.prefillQueue ∧
    (finishTurn t entries logits st).2.poisoned = st.poisoned := by
  have hsampled := sampleAll_housed t.sample
    ⟨st.scheduler.active, st.events, []⟩ hhoused (entries.zip logits)
  obtain ⟨hcleaned, hfreed⟩ := cleanup_housed (s := { st.scheduler with active :=
    (sampleAll t.sample { active := st.scheduler.active, events := st.events, sampled := [] }
      entries logits).active }) hsampled t.cleanupOrder t.cleanupClosed
  exact ⟨hcleaned, ⟨_, hfreed⟩, rfl, rfl⟩

variable {s s' : BatchScheduler} {closed : ℕ → Bool} {c c' : PagedKvCacheManager R}

section

variable {events : List (ℕ × GenerationEvent)} (h : Planned s closed c d s' c' events) (id : ℕ)
include h

/-- The jobs of a decision are the entries of its batch. -/
theorem BatchScheduler.Planned.notMem_entries_iff :
    id ∉ (batchEntries s' d).map (·.seqId) ↔
      (d.shareOf events id).prefills = [] ∧ (d.shareOf events id).decodes = [] := by
  constructor
  · intro hnone
    have hno : ∀ {P : Prop}, (P → ∃ entry ∈ batchEntries s' d, entry.seqId = id) → ¬ P := by
      intro P hP hp
      obtain ⟨entry, hentry, heq⟩ := hP hp
      exact hnone (List.mem_map.2 ⟨entry, hentry, heq⟩)
    exact ⟨not_not.1 (hno fun hne => h.exists_entry (.inl hne)),
      not_not.1 (hno fun hne => h.exists_entry (.inr hne))⟩
  · rintro ⟨hprefills, hdecodes⟩ hmem
    obtain ⟨entry, hentry, rfl⟩ := List.mem_map.1 hmem
    rcases mem_batchEntries.1 hentry with ⟨pf, hpf, seq, hseq, rfl⟩ | ⟨dj, hdj, seq, hseq, rfl⟩
    · have hpf' := mem_prefillsOf.2 ⟨hpf, rfl⟩
      rw [show d.prefillsOf pf.seqId = [] from hprefills] at hpf'
      cases hpf'
    · have hdj' := mem_decodesOf.2 ⟨hdj, rfl⟩
      rw [show d.decodesOf dj.seqId = [] from hdecodes] at hdj'
      cases hdj'

/-- When there is nothing to run, no job has a token. -/
theorem BatchScheduler.Planned.empty_of_notRun (hnone : d.totalTokens = 0 ∨ batchEntries s' d = []) :
    (d.shareOf events id).decodes = [] ∧
      ∀ pf ∈ (d.shareOf events id).prefills, pf.tokenIds = [] := by
  rcases hnone with hzero | hempty
  · have hjobs : (d.prefills.map (·.tokenIds.length)).sum + d.decodes.length = 0 :=
      h.total.symm.trans hzero
    rw [Nat.add_eq_zero_iff, List.sum_eq_zero_iff_forall_eq_nat, List.length_eq_zero_iff] at hjobs
    refine ⟨by simp [SchedulerDecision.shareOf, SchedulerDecision.decodesOf, hjobs.2], fun pf hpf => ?_⟩
    exact List.length_eq_zero_iff.1
      (hjobs.1 _ (List.mem_map.2 ⟨pf, (mem_prefillsOf.1 hpf).1, rfl⟩))
  · have hnone := (h.notMem_entries_iff id).1 (by simp [hempty])
    exact ⟨hnone.2, fun pf hpf => by rw [hnone.1] at hpf; cases hpf⟩

end

/-- A sequence that is not running is not sampled for, and is not there to
clean up. -/
theorem lookup_finishTurn_none {row : Option (List F)} {sampled : Option ActiveSequence}
    {events' : List GenerationEvent} (hnone : st.scheduler.active.lookup id = none)
    (hsampled : Sampled t.sample id row (st.scheduler.active.lookup id) drawn events sampled)
    (hcleaned : Cleaned t.cleanupClosed id sampled events' ((finishTurn t entries logits
      st).2.scheduler.active.lookup id)) :
    (finishTurn t entries logits st).2.scheduler.active.lookup id = none := by
  rw [hnone] at hsampled
  generalize (finishTurn t entries logits st).2.scheduler.active.lookup id = after at hcleaned ⊢
  cases hsampled
  cases hcleaned
  rfl

section Done

variable {d : SchedulerDecision} {st₁ : LoopState R} {events : List (ℕ × GenerationEvent)}
  {c₂ : PagedKvCacheManager R}

/-- The cache of a sequence that is removed after a pass. -/
theorem returned_of_freed {handles : List CacheHandle} {c₃ : PagedKvCacheManager R}
    {active' : AList fun _ : ℕ => ActiveSequence}
    (hplanned : Planned (st.enqueued t) t.closed st.cache d st₁.scheduler st₁.cache events)
    (htouched : Touched st₁.cache c₂) (hfreed : Freed handles c₂ c₃)
    (hhoused' : Housed active' c₃)
    (hold : ∀ {id seq'}, active'.lookup id = some seq' → ∃ seq, st₁.scheduler.active.lookup id =
      some seq ∧ seq'.handle = seq.handle) {seq : ActiveSequence}
    (hseq : st.scheduler.active.lookup id = some seq) (hgone : active'.lookup id = none) :
    c₃.lenOf seq.handle = none ∧ ∀ {blocks}, st.cache.sequences.lookup seq.handle = some blocks →
      blocks.blockTable ⊆ c₃.pool.freeList := by
  have hplan := hplanned.each id
  rw [show (st.enqueued t).active.lookup id = some seq from hseq] at hplan
  obtain ⟨seq₁, hseq₁, hhandle⟩ := hplan.of_some
  have hmem := hfreed.mem_of_removed (hplanned.toHoused.congr htouched.live) hhoused' hold hseq₁ hgone
  rw [hhandle] at hmem
  refine ⟨hfreed.gone _ hmem, fun hblocks => ?_⟩
  obtain ⟨blocks₂, hblocks₂, hprefix⟩ := htouched.tables (hplanned.tables hblocks)
  exact List.Subset.trans hprefix.subset (hfreed.returned _ hmem hblocks₂)

variable (hevents : st₁.events = st.events ++ events) (hclean : st.poisoned = false)
  (hpoisoned : st₁.poisoned = st.poisoned)
  (hplanned : Planned (st.enqueued t) t.closed st.cache d st₁.scheduler st₁.cache events)
  (htouched : Touched st₁.cache c₂)
include hevents hclean hpoisoned hplanned htouched

/-- A turn whose pass came through. -/
theorem turnDone_of_logits {logits : List (List F)}
    (hlen : logits.length = (batchEntries st₁.scheduler d).length) :
    TurnDone t st st₁.cache events
      ⟨t.submitted, d, batchEntries st₁.scheduler d, .logits logits,
        (finishTurn t (batchEntries st₁.scheduler d) logits { st₁ with cache := c₂ }).1⟩
      (finishTurn t (batchEntries st₁.scheduler d) logits { st₁ with cache := c₂ }).2 := by
  have heach := finishTurn_each t { st₁ with cache := c₂ } hlen hplanned.nodup_entries
    hplanned.decoding_entries
  obtain ⟨hhoused, ⟨handles, hfreed⟩, hqueue, hflag⟩ := finishTurn_housed t
    { st₁ with cache := c₂ } (hplanned.toHoused.congr htouched.live)
    (batchEntries st₁.scheduler d) logits
  refine ⟨hplanned.toWidened, fun id => ?_, hplanned.queue, hplanned.waiting,
    ⟨hhoused, ⟨hplanned.nodup, fun req hreq => ?_⟩, hfreed.accounted htouched.accounted⟩, ?_, ?_⟩
  · obtain ⟨row, sampled, sent, sent', hrow, hsent, hsampled, hcleaned⟩ := heach id
    refine ⟨eventsOf id events ++ sent ++ sent', ?_, ?_⟩
    · rw [hsent]
      dsimp only
      rw [hevents, eventsOf_append, List.append_assoc, List.append_assoc, List.append_assoc]
    · exact ⟨_, _, hplanned.each id, .run rfl (hrow.trans (hplanned.notMem_entries_iff id)) hsampled
        hcleaned, List.append_assoc _ _ _⟩
  · obtain ⟨row, sampled, sent, sent', -, -, hsampled, hcleaned⟩ := heach req.seqId
    exact lookup_finishTurn_none (hplanned.notActive req hreq) hsampled hcleaned
  · rw [hflag, hpoisoned]
    simp [hclean]
  · refine returned_of_freed hplanned htouched hfreed hhoused fun {id seq'} hseq' => ?_
    obtain ⟨row, sampled, sent, sent', -, -, hsampled, hcleaned⟩ := heach id
    rw [hseq'] at hcleaned
    cases hcleaned
    obtain ⟨seq, hseq, -, hhandle, -⟩ := hsampled.same rfl
    exact ⟨seq, hseq, hhandle⟩

/-- A turn whose pass failed. -/
theorem turnDone_of_failed (err : FractureError) :
    TurnDone t st st₁.cache events
      ⟨t.submitted, d, batchEntries st₁.scheduler d, .failed err, []⟩
      ((batchEntries st₁.scheduler d).foldl (abortEntry err) { st₁ with cache := c₂ }) := by
  obtain ⟨hhoused, hfreed⟩ := (hplanned.toHoused.congr htouched.live).evictAll
    (batchEntries st₁.scheduler d) (·.seqId) (·.slice.handle) hplanned.nodup_entries
    hplanned.lookup_entries
  rw [foldl_abortEntry hplanned.nodup_entries err { st₁ with cache := c₂ } hplanned.lookup_entries]
  refine ⟨hplanned.toWidened, fun id => ?_, hplanned.queue, hplanned.waiting,
    ⟨hhoused, ⟨hplanned.nodup, fun req hreq => ?_⟩, hfreed.accounted htouched.accounted⟩, ?_, ?_⟩
  · dsimp only
    rw [lookup_foldl_erase, hevents, eventsOf_append, eventsOf_append,
      eventsOf_abort hplanned.nodup_entries]
    by_cases hmem : id ∈ (batchEntries st₁.scheduler d).map (·.seqId)
    · obtain ⟨entry, hentry, rfl⟩ := List.mem_map.1 hmem
      obtain ⟨seq, hseq, -⟩ := hplanned.lookup_entries entry hentry
      have hplan := hplanned.each entry.seqId
      rw [hseq] at hplan
      rw [if_pos hmem, if_pos hmem, List.append_assoc]
      exact ⟨_, rfl, _, _, hplan, .aborted rfl fun hnone =>
        (hplanned.notMem_entries_iff entry.seqId).2 hnone hmem, rfl⟩
    · rw [if_neg hmem, if_neg hmem, List.append_nil]
      exact ⟨_, rfl, _, _, hplanned.each id, .spared rfl ((hplanned.notMem_entries_iff id).1 hmem),
        (List.append_nil _).symm⟩
  · dsimp only
    rw [lookup_foldl_erase, hplanned.notActive req hreq, ite_self]
  · simp [hclean, hpoisoned]
  · refine returned_of_freed hplanned htouched hfreed hhoused fun {id seq'} hseq' => ?_
    rw [lookup_foldl_erase] at hseq'
    split at hseq'
    · cases hseq'
    · exact ⟨seq', hseq', rfl⟩

end Done

variable (e) (hsane : st.Sane) (hfresh : t.Fresh st)
include hsane hfresh

/-- A turn of a loop that is up. -/
theorem turnDone_of_clean (hclean : st.poisoned = false) :
    ∃ events, TurnDone t st (st.schedule t).2.cache events (st.turn e t).1 (st.turn e t).2 := by
  obtain ⟨events, hevents, hpoisoned, hplanned⟩ := schedule_planned hsane hfresh
  refine ⟨events, ?_⟩
  have htouched := batchedForward_within e.weights e.layerRange e.backend
    ((batchEntries (st.schedule t).2.scheduler (st.schedule t).1).map (·.slice))
    (st.schedule t).2.cache hplanned.accounted
  generalize hd : (st.schedule t).1 = d at *
  generalize hst₁ : (st.schedule t).2 = st₁ at *
  -- Planning alone removes no sequence.
  have hstays : ∀ {id seq}, st.scheduler.active.lookup id = some seq →
      st₁.scheduler.active.lookup id ≠ none := by
    intro id seq hseq hgone
    have hplan := hplanned.each id
    rw [show (st.enqueued t).active.lookup id = some seq from hseq, hgone] at hplan
    obtain ⟨seq', hseq', -⟩ := hplan.of_some
    cases hseq'
  rcases turn_cases e t hclean (Prod.ext hd hst₁) with ⟨hnone, hturn⟩ | ⟨-, ⟨logits, c₂, hok, hturn⟩ |
    ⟨err, c₂, herr, hturn⟩ | ⟨why, c₂, hpanic, hturn⟩⟩
  · rw [hturn]
    refine ⟨hplanned.toWidened, fun id => ⟨eventsOf id events, ?_, ?_⟩, hplanned.queue,
      hplanned.waiting, ⟨hplanned.toHoused, hplanned.toWaiting, hplanned.accounted⟩, ?_,
      fun hseq hgone => absurd hgone (hstays hseq)⟩
    · rw [hevents, eventsOf_append]
    · obtain ⟨hdecodes, hprefills⟩ := hplanned.empty_of_notRun id hnone
      exact ⟨_, [], hplanned.each id, .idle rfl hdecodes hprefills, (List.append_nil _).symm⟩
    · simp [hpoisoned]
  · rw [hok, state_ok] at htouched
    have hlen := length_batchedForward hok
    rw [List.length_map] at hlen
    rw [hturn]
    exact turnDone_of_logits hevents hclean hpoisoned hplanned htouched hlen
  · rw [herr, state_error] at htouched
    rw [hturn]
    exact turnDone_of_failed hevents hclean hpoisoned hplanned htouched err
  · rw [hpanic, state_error] at htouched
    rw [hturn]
    refine ⟨hplanned.toWidened, fun id => ⟨eventsOf id events, ?_, _, [], hplanned.each id,
      .crashed rfl, (List.append_nil _).symm⟩, hplanned.queue, hplanned.waiting,
      ⟨hplanned.toHoused.congr htouched.live, hplanned.toWaiting, htouched.accounted⟩, by simp,
      fun hseq hgone => absurd hgone (hstays hseq)⟩
    dsimp only
    rw [hevents, eventsOf_append]

/-- **One turn of the loop.** -/
theorem turnDone : ∃ c₁ events, TurnDone t st c₁ events (st.turn e t).1 (st.turn e t).2 := by
  cases hclean : st.poisoned with
  | true =>
    -- The loop is down, and nothing happens.
    have hturn : st.turn e t = (⟨t.submitted, ⟨[], [], 0⟩, [], .notRun, []⟩, st) := by
      rw [LoopState.turn, if_pos hclean]
    rw [hturn]
    refine ⟨st.cache, [], ⟨hsane.accounted, fun _ => rfl, fun h => h⟩, fun id => ?_,
      List.sublist_append_left _ _, fun _ _ => rfl, hsane, by simp [hclean],
      fun hseq hgone => ?_⟩
    · exact ⟨[], (List.append_nil _).symm, _, [], .idle _, .idle rfl rfl (fun pf hpf => by cases hpf),
        rfl⟩
    · cases hgone.symm.trans hseq
  | false => exact ⟨_, turnDone_of_clean e hsane hfresh hclean⟩

end Turn

end Fracture
