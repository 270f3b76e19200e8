import Fracture.Distributed.Life

/-!
# A whole turn, seen from one request

The batch of a turn gives each sequence in it one job. If the pipeline
comes through, the job moves the sequence on or ends in a draw; if not,
the sequence is given up. With that, every turn is some moves in the life
of every request, and what every move keeps holds of every life in every
run.
-/

namespace Fracture

open Effect Runs

variable {π F : Type}

namespace DistributedSequence

/-- What the sampling loop makes of a job: the sequence after it, the
events and tokens, and whether the sequence is through. -/
inductive Samples (seq : DistributedSequence) (t : DistributedTurn π F) (id : ℕ)
    (job : DistributedJob) :
    DistributedSequence → List GenerationEvent → List ℕ → Prop → Prop
  | chunk {n} (hopen : seq.prefillDone = false) (hlt : n < seq.remainingPrefill.length)
    (hjob : job = seq.prefillJob n) : Samples seq t id job (seq.advance n) [] [] False
  | draw {isPrefill seq' logits token} (hready : seq.Ready job isPrefill seq')
    (hok : t.sample id logits seq.params = .ok token) :
    Samples seq t id job (seq'.pushToken isPrefill token)
      (if token ∈ seq'.stopTokens then [] else [.token token]) [token]
      ((seq'.pushToken isPrefill token).through token)
  | botch {isPrefill seq' logits e} (hready : seq.Ready job isPrefill seq')
    (herr : t.sample id logits seq.params = .error e) (message : String) :
    Samples seq t id job seq' [.error message] [] True

variable {seq : DistributedSequence} {t : DistributedTurn π F} {id : ℕ} {job : DistributedJob}
  {through : Prop}

theorem Samples.seqId {seq' : DistributedSequence} {events : List GenerationEvent} {drawn : List ℕ}
    (h : seq.Samples t id job seq' events drawn through) : seq'.seqId = seq.seqId := by
  cases h with
  | chunk => rfl
  | draw hready => cases hready <;> rfl
  | botch hready => cases hready <;> rfl

/-- A job that came through is a move in its sequence's life. -/
theorem Samples.move {after : DistributedSequence} {sent : List GenerationEvent} {drew : List ℕ}
    (h : seq.Samples t id job after sent drew through) {l : Life}
    (hstatus : l.status = .running seq) :
    (through → l.Move t id
      { status := .over, events := l.events ++ (sent ++ [after.farewell]), jobs := l.jobs ++ [job],
        drawn := l.drawn ++ drew }) ∧
    (¬ through → l.Move t id
      { status := .running after, events := l.events ++ sent, jobs := l.jobs ++ [job],
        drawn := l.drawn ++ drew }) := by
  cases h with
  | chunk hopen hlt hjob =>
    subst hjob
    rw [List.append_nil, List.append_nil]
    exact ⟨False.elim, fun _ => .chunk hstatus hopen hlt⟩
  | @draw isPrefill seq' logits token hready hok =>
    have hmove := Life.Move.draw hstatus hready hok
    unfold reply at hmove
    refine ⟨fun hthrough => ?_, fun hthrough => ?_⟩
    · rw [if_pos hthrough, if_pos hthrough] at hmove
      exact hmove
    · rw [if_neg hthrough, if_neg hthrough, List.append_nil] at hmove
      exact hmove
  | botch hready herr message =>
    rw [List.append_nil]
    exact ⟨fun _ => .botch hstatus hready herr message, fun hnot => absurd trivial hnot⟩

end DistributedSequence

namespace DistributedState

variable {t : DistributedTurn π F} {id : ℕ}

/-! ## Sampling -/

/-- What the sampling loop has of one sequence. -/
structure View (st : DistributedSampling) (id : ℕ) (entry : Option DistributedSequence)
    (events : List GenerationEvent) (drawn : List ℕ) (through : Prop) : Prop where
  entry : st.active.lookup id = entry
  events : eventsOf id st.events = events
  drawn : drawnOf id st.sampled = drawn
  completed : id ∈ st.completed ↔ through

section Sampling

variable {st : DistributedSampling} {entry : Option DistributedSequence}
  {events : List GenerationEvent} {drawn : List ℕ} {through : Prop} {seqId : ℕ}

section

variable (h : View st id entry events drawn through) (hne : id ≠ seqId) (isPrefill : Bool)
  (logits : List F)
include h hne

/-- A draw is nothing to the other sequences. -/
theorem View.drawToken_of_ne (seq : DistributedSequence) :
    View (drawToken t st seqId isPrefill seq logits) id entry events drawn through := by
  obtain ⟨hentry, hevents, hdrawn, hcompleted⟩ := h
  have hlookup : ∀ seq, (st.active.insert seqId seq).lookup id = entry := fun seq => by
    rw [AList.lookup_insert_ne hne, hentry]
  have hevents' : ∀ e, eventsOf id (st.events ++ [(seqId, e)]) = events := fun e => by
    rw [eventsOf_append, eventsOf_of_ne (Ne.symm hne), List.append_nil, hevents]
  have hdrawn' : ∀ token, drawnOf id (st.sampled ++ [(seqId, token)]) = drawn := fun token => by
    rw [drawnOf_append, drawnOf_singleton, if_neg (Ne.symm hne), List.append_nil, hdrawn]
  have hcompleted' : id ∈ st.completed ++ [seqId] ↔ through := by
    rw [List.mem_append, List.mem_singleton, or_iff_left hne, hcompleted]
  unfold drawToken
  split
  · dsimp only
    split
    · exact ⟨hlookup _, hevents, hdrawn' _, hcompleted'⟩
    · split
      · exact ⟨hlookup _, hevents' _, hdrawn' _, hcompleted'⟩
      · exact ⟨hlookup _, hevents' _, hdrawn' _, hcompleted⟩
  · exact ⟨hlookup _, hevents' _, hdrawn, hcompleted'⟩

/-- A turn of the sampling loop is nothing to the other sequences. -/
theorem View.sampleEntry_of_ne (chunkSize : ℕ) :
    View (sampleEntry t st seqId isPrefill chunkSize logits) id entry events drawn through := by
  unfold sampleEntry
  split
  · exact h
  · next seq _ =>
    dsimp only
    generalize (if isPrefill then seq.advance chunkSize else seq) = seq'
    split
    · refine ⟨?_, h.events, h.drawn, h.completed⟩
      rw [AList.lookup_insert_ne hne, h.entry]
    · exact h.drawToken_of_ne hne isPrefill logits seq'

end

variable {seq : DistributedSequence} {job : DistributedJob}

/-- A draw for a sequence whose job is done. -/
theorem View.drawToken_self (h : View st id entry events drawn False) {isPrefill : Bool}
    {seq' : DistributedSequence} (hready : seq.Ready job isPrefill seq') (logits : List F) :
    ∃ after sent drew through, seq.Samples t id job after sent drew through ∧
      View (drawToken t st id isPrefill seq' logits) id (some after) (events ++ sent)
        (drawn ++ drew) through := by
  obtain ⟨-, hevents, hdrawn, hcompleted⟩ := h
  have hparams : seq'.params = seq.params := by cases hready <;> rfl
  have hcompleted' : id ∈ st.completed ++ [id] := List.mem_append_right _ (.head _)
  unfold drawToken
  cases hsample : t.sample id logits seq'.params with
  | error e =>
    refine ⟨seq', [.error ("sampling failed: " ++ e.display)], [], True,
      .botch hready (hparams ▸ hsample) _, AList.lookup_insert _, ?_, ?_,
      iff_of_true hcompleted' trivial⟩
    · rw [eventsOf_append, eventsOf_self, hevents]
      rfl
    · rw [List.append_nil, hdrawn]
  | ok token =>
    refine ⟨_, _, _, _, .draw hready (hparams ▸ hsample), ?_⟩
    have hdrawn' : drawnOf id (st.sampled ++ [(id, token)]) = drawn ++ [token] := by
      rw [drawnOf_append, drawnOf_singleton, if_pos rfl, hdrawn]
    have hstop : (seq'.pushToken isPrefill token).stopTokens = seq'.stopTokens := rfl
    dsimp only
    rw [DistributedSequence.through, hstop, Bool.or_eq_true, decide_eq_true_iff, decide_eq_true_iff]
    split
    · next hin =>
      refine ⟨AList.lookup_insert _, ?_, hdrawn', iff_of_true hcompleted' (.inl hin)⟩
      rw [List.append_nil, hevents]
    · next hout =>
      have hevents' : eventsOf id (st.events ++ [(id, .token token)]) =
          events ++ [.token token] := by
        rw [eventsOf_append, eventsOf_self, hevents]
      split
      · next hlimit =>
        exact ⟨AList.lookup_insert _, hevents', hdrawn', iff_of_true hcompleted' (.inr hlimit)⟩
      · next hunder =>
        refine ⟨AList.lookup_insert _, hevents', hdrawn', ?_⟩
        rw [hcompleted]
        exact iff_of_false not_false (not_or.2 ⟨hout, hunder⟩)

/-- **What a turn of the sampling loop does for its own sequence.** -/
theorem View.sampleEntry_self (h : View st id (some seq) events drawn False)
    (hjob : seq.JobFor job) (logits : List F) :
    ∃ after sent drew through, seq.Samples t id job after sent drew through ∧
      View (sampleEntry t st id job.isPrefill job.tokens.length logits) id (some after)
        (events ++ sent) (drawn ++ drew) through := by
  unfold sampleEntry
  rw [h.entry]
  cases hjob with
  | decode hdone => exact h.drawToken_self (.decode hdone) logits
  | @prefill n hopen hleft hle =>
    have htokens : (seq.prefillJob n).tokens.length = n := by
      rw [DistributedSequence.prefillJob, List.length_take, Nat.min_eq_left hle]
    have hprefill : (seq.prefillJob n).isPrefill = true := rfl
    rw [htokens, hprefill]
    dsimp only
    rw [if_pos rfl, Bool.true_and]
    have hrest : (seq.advance n).remainingPrefill.length = seq.remainingPrefill.length - n :=
      List.length_drop
    split
    · next hmore =>
      have hlt : n < seq.remainingPrefill.length := by
        have := List.length_pos_iff.2 (List.isEmpty_eq_false_iff.1 (by simpa using hmore))
        omega
      refine ⟨_, _, _, _, .chunk hopen hlt rfl, AList.lookup_insert _, ?_, ?_, h.completed⟩
      · rw [List.append_nil, h.events]
      · rw [List.append_nil, h.drawn]
    · next hend =>
      have heq : n = seq.remainingPrefill.length := by
        have hnil : (seq.advance n).remainingPrefill = [] := by simpa using hend
        rw [hnil, List.length_nil] at hrest
        omega
      subst heq
      exact h.drawToken_self (.prompt hopen hleft) logits

variable {tasks : List (SampleTask F)}

/-- A sequence without a job in the batch. -/
theorem View.sampleAll_of_notMem (h : View st id entry events drawn through)
    (hout : id ∉ tasks.map (·.seqId)) :
    View (sampleAll t tasks st) id entry events drawn through := by
  induction tasks generalizing st with
  | nil => exact h
  | cons task tasks ih =>
    rw [List.map_cons, List.mem_cons, not_or] at hout
    exact ih (h.sampleEntry_of_ne hout.1 _ _ _) hout.2

/-- A sequence with a job in the batch. -/
theorem View.sampleAll_of_mem (h : View st id (some seq) events drawn False) (hjob : seq.JobFor job)
    (hids : (tasks.map (·.seqId)).Nodup) {logits : List F}
    (hmem : ⟨id, job.isPrefill, job.tokens.length, logits⟩ ∈ tasks) :
    ∃ after sent drew through, seq.Samples t id job after sent drew through ∧
      View (sampleAll t tasks st) id (some after) (events ++ sent) (drawn ++ drew) through := by
  induction tasks generalizing st with
  | nil => cases hmem
  | cons task tasks ih =>
    rw [List.map_cons, List.nodup_cons] at hids
    rcases List.mem_cons.1 hmem with heq | hmem
    · rw [← heq] at hids ⊢
      obtain ⟨after, sent, drew, through, hsamples, hview⟩ := h.sampleEntry_self hjob logits
      exact ⟨after, sent, drew, through, hsamples, hview.sampleAll_of_notMem hids.1⟩
    · have hne : id ≠ task.seqId := fun heq => hids.1 (heq ▸ List.mem_map_of_mem hmem)
      exact ih (h.sampleEntry_of_ne hne _ _ _) hids.2 hmem

/-- The tasks of a batch are its jobs, each with its logits. -/
theorem sampleTasks_ofJobs (jobs : List DistributedJob) {logits : List (List F)}
    (hlen : logits.length = jobs.length) :
    ((sampleTasks (.ofJobs jobs) logits).map (·.seqId)) = jobs.map (·.seqId) ∧
    ∀ job ∈ jobs, ∃ row, ⟨job.seqId, job.isPrefill, job.tokens.length, row⟩ ∈
      sampleTasks (.ofJobs jobs) logits := by
  induction jobs generalizing logits with
  | nil => simp [sampleTasks, DistributedBatch.ofJobs]
  | cons job jobs ih =>
    cases logits with
    | nil => cases hlen
    | cons row logits =>
      obtain ⟨hids, hmem⟩ := ih (Nat.succ.inj hlen)
      have hcons : sampleTasks (.ofJobs (job :: jobs)) (row :: logits) =
          ⟨job.seqId, job.isPrefill, job.tokens.length, row⟩ ::
            sampleTasks (.ofJobs jobs) logits := rfl
      rw [hcons]
      refine ⟨by rw [List.map_cons, List.map_cons, hids], fun job' hjob' => ?_⟩
      rcases List.mem_cons.1 hjob' with rfl | hjob'
      · exact ⟨row, .head _⟩
      · obtain ⟨row', hrow'⟩ := hmem job' hjob'
        exact ⟨row', .tail _ hrow'⟩

end Sampling

/-! ## The batch -/

/-- Jobs for running sequences. -/
structure Runnable (st : DistributedState π) (jobs : List DistributedJob) : Prop where
  ids : (jobs.map (·.seqId)).Nodup
  each : ∀ job ∈ jobs, ∃ seq, st.active.lookup job.seqId = some seq ∧ seq.JobFor job

section Batch

variable {st st' : DistributedState π} {jobs : List DistributedJob} {logits : List (List F)}
  {sampled : List (ℕ × ℕ)}

section

variable (hlen : logits.length = jobs.length)
  (hconclude : conclude t st (.ofJobs jobs) logits = (sampled, st'))
include hlen hconclude

/-- What a batch that came through does to a sequence without a job. -/
theorem conclude_of_notMem (hout : id ∉ jobs.map (·.seqId)) :
    st'.active.lookup id = st.active.lookup id ∧ eventsOf id st'.events = eventsOf id st.events ∧
      drawnOf id sampled = [] := by
  obtain ⟨htasks, -⟩ := sampleTasks_ofJobs jobs hlen
  have hview : View { active := st.active, events := st.events, sampled := [], completed := [] } id
      (st.active.lookup id) (eventsOf id st.events) [] False := ⟨rfl, rfl, rfl, by simp⟩
  have hdrew := hview.sampleAll_of_notMem (t := t) (htasks ▸ hout)
  cases hconclude
  obtain ⟨-, -, hlookup, hevents⟩ := foldl_removeSeq (fun seq => seq.farewell)
    (fun seqId pipeline => state (t.ops.freeCache seqId pipeline)) _ _
  refine ⟨(hlookup id).trans ?_, (hevents id).trans ?_, hdrew.drawn⟩
  · rw [if_neg (fun hin => hdrew.completed.1 hin)]
    exact hdrew.entry
  · rw [if_neg (fun hin => hdrew.completed.1 hin), List.append_nil]
    exact hdrew.events

/-- What it does to a sequence with a job. -/
theorem conclude_of_mem (hids : (jobs.map (·.seqId)).Nodup) {job : DistributedJob}
    (hmem : job ∈ jobs) {seq : DistributedSequence} (hseq : st.active.lookup job.seqId = some seq)
    (hjob : seq.JobFor job) :
    ∃ after sent drew through, seq.Samples t job.seqId job after sent drew through ∧
      drawnOf job.seqId sampled = drew ∧
      (through ∧ st'.active.lookup job.seqId = none ∧
          eventsOf job.seqId st'.events =
            eventsOf job.seqId st.events ++ (sent ++ [after.farewell]) ∨
        ¬ through ∧ st'.active.lookup job.seqId = some after ∧
          eventsOf job.seqId st'.events = eventsOf job.seqId st.events ++ sent) := by
  obtain ⟨htasks, hrows⟩ := sampleTasks_ofJobs jobs hlen
  obtain ⟨row, hrow⟩ := hrows job hmem
  have hview : View { active := st.active, events := st.events, sampled := [], completed := [] }
      job.seqId (some seq) (eventsOf job.seqId st.events) [] False := ⟨hseq, rfl, rfl, by simp⟩
  obtain ⟨after, sent, drew, through, hsamples, hdrew⟩ :=
    hview.sampleAll_of_mem (t := t) hjob (htasks ▸ hids) hrow
  cases hconclude
  obtain ⟨-, -, hlookup, hevents⟩ := foldl_removeSeq (fun seq => seq.farewell)
    (fun seqId pipeline => state (t.ops.freeCache seqId pipeline)) _ _
  refine ⟨after, sent, drew, through, hsamples, hdrew.drawn, ?_⟩
  by_cases hthrough : through
  · refine .inl ⟨hthrough, (hlookup _).trans (if_pos (hdrew.completed.2 hthrough)),
      (hevents _).trans ?_⟩
    rw [if_pos (hdrew.completed.2 hthrough)]
    rw [hdrew.entry, hdrew.events, List.append_assoc]
    rfl
  · have hnot := fun hin => hthrough (hdrew.completed.1 hin)
    refine .inr ⟨hthrough, (hlookup _).trans ?_, (hevents _).trans ?_⟩
    · rw [if_neg hnot]
      exact hdrew.entry
    · rw [if_neg hnot, List.append_nil]
      exact hdrew.events

end

/-- Where a sequence stands after its job. -/
def statusAfter : Option DistributedSequence → LifeStatus
  | some seq => .running seq
  | none => .over

/-- Jobs that are moves of their sequences, in a batch that is nothing to
the others. -/
theorem moves_of_each (h : st.Sane) (hjobs : st.Runnable jobs) (hpending : st'.pending = st.pending)
    (hreceived : st'.received = st.received) (drew : ℕ → List ℕ)
    (hothers : ∀ {id}, id ∉ jobs.map (·.seqId) → st'.active.lookup id = st.active.lookup id ∧
      eventsOf id st'.events = eventsOf id st.events ∧ drew id = [])
    (heach : ∀ job ∈ jobs, ∀ {seq}, st.active.lookup job.seqId = some seq → seq.JobFor job →
      ∃ sent, eventsOf job.seqId st'.events = eventsOf job.seqId st.events ++ sent ∧
        (∀ {after}, st'.active.lookup job.seqId = some after → after.seqId = seq.seqId) ∧
        ∀ {l : Life}, l.status = .running seq → l.Move t job.seqId
          { status := statusAfter (st'.active.lookup job.seqId), events := l.events ++ sent,
            jobs := l.jobs ++ [job], drawn := l.drawn ++ drew job.seqId }) :
    st'.Sane ∧ ∀ id before drawn, Life.Moves t id (st.lifeOf before drawn id)
      (st'.lifeOf (before ++ jobs.filter (·.seqId = id)) (drawn ++ drew id) id) := by
  refine ⟨h.shrink (by rw [hpending]) hreceived fun {id after} hafter => ?_,
    fun id before drawn => ?_⟩
  · by_cases hid : id ∈ jobs.map (·.seqId)
    · obtain ⟨job, hmem, rfl⟩ := List.mem_map.1 hid
      obtain ⟨seq, hseq, hjob⟩ := hjobs.each job hmem
      obtain ⟨-, -, hsame, -⟩ := heach job hmem hseq hjob
      exact ⟨seq, hseq, hsame hafter⟩
    · exact ⟨after, (hothers hid).1 ▸ hafter, rfl⟩
  · by_cases hid : id ∈ jobs.map (·.seqId)
    · obtain ⟨job, hmem, rfl⟩ := List.mem_map.1 hid
      obtain ⟨seq, hseq, hjob⟩ := hjobs.each job hmem
      obtain ⟨sent, hevents, -, hmove⟩ := heach job hmem hseq hjob
      have hfilter := Assoc.filter_key_eq_singleton hjobs.ids hmem
      have hstatus : st'.statusOf job.seqId = statusAfter (st'.active.lookup job.seqId) := by
        cases hafter : st'.active.lookup job.seqId with
        | some after => exact statusOf_of_running hafter
        | none => exact h.statusOf_of_removed hseq hpending hreceived hafter
      rw [lifeOf, lifeOf, hfilter, hevents, hstatus]
      exact .single (hmove (statusOf_of_running hseq))
    · obtain ⟨hlookup, hevents, hdrew⟩ := hothers hid
      rw [Assoc.filter_key_eq_nil hid, hdrew, List.append_nil, List.append_nil,
        lifeOf_congr hpending hreceived hlookup hevents]
      exact .refl

/-- A batch that failed. -/
theorem abortBatch_moves (h : st.Sane) (hjobs : st.Runnable jobs) (e : FractureError)
    (hst' : st' = abortBatch t st e (jobs.map (·.seqId))) :
    st'.Sane ∧ ∀ id before drawn, Life.Moves t id (st.lifeOf before drawn id)
      (st'.lifeOf (before ++ jobs.filter (·.seqId = id)) (drawn ++ []) id) := by
  obtain ⟨hpending, hreceived, hlookup, hevents⟩ := foldl_removeSeq
    (fun _ => .error ("forward pass failed: " ++ e.display)) t.ops.freeCacheBestEffort
    (jobs.map (·.seqId)) st
  change (abortBatch t st e (jobs.map (·.seqId))).pending = _ at hpending
  change (abortBatch t st e (jobs.map (·.seqId))).received = _ at hreceived
  change ∀ id, (abortBatch t st e (jobs.map (·.seqId))).active.lookup id = _ at hlookup
  change ∀ id, eventsOf id (abortBatch t st e (jobs.map (·.seqId))).events = _ at hevents
  rw [← hst'] at hpending hreceived hlookup hevents
  refine moves_of_each h hjobs hpending hreceived (fun _ => []) (fun {id} hid => ?_) ?_
  · refine ⟨(hlookup id).trans (if_neg hid), (hevents id).trans ?_, rfl⟩
    rw [if_neg hid, List.append_nil]
  · intro job hmem seq hseq hjob
    have hin : job.seqId ∈ jobs.map (·.seqId) := List.mem_map_of_mem hmem
    have hgone := (hlookup job.seqId).trans (if_pos hin)
    refine ⟨[.error ("forward pass failed: " ++ e.display)], (hevents _).trans ?_,
      fun hafter => ?_, fun hstatus => ?_⟩
    · rw [if_pos hin, hseq]
      rfl
    · cases hgone.symm.trans hafter
    · rw [hgone, List.append_nil]
      exact .lose hstatus hjob _

/-- A batch that came through. -/
theorem conclude_moves (h : st.Sane) (hjobs : st.Runnable jobs) (hlen : logits.length = jobs.length)
    (hconclude : conclude t st (.ofJobs jobs) logits = (sampled, st')) :
    st'.Sane ∧ ∀ id before drawn, Life.Moves t id (st.lifeOf before drawn id)
      (st'.lifeOf (before ++ jobs.filter (·.seqId = id)) (drawn ++ drawnOf id sampled) id) := by
  have hcleanup := foldl_removeSeq (fun seq => seq.farewell)
    (fun seqId pipeline => state (t.ops.freeCache seqId pipeline))
    (sampleAll t (sampleTasks (.ofJobs jobs) logits) ⟨st.active, st.events, [], []⟩).completed
    { st with
      active := (sampleAll t (sampleTasks (.ofJobs jobs) logits) ⟨st.active, st.events, [], []⟩).active
      events := (sampleAll t (sampleTasks (.ofJobs jobs) logits)
        ⟨st.active, st.events, [], []⟩).events }
  have hst' : st' = (conclude t st (.ofJobs jobs) logits).2 := by rw [hconclude]
  refine moves_of_each h hjobs (hst' ▸ hcleanup.1) (hst' ▸ hcleanup.2.1) (drawnOf · sampled)
    (fun {id} hid => conclude_of_notMem hlen hconclude hid) ?_
  intro job hmem seq hseq hjob
  obtain ⟨after, sent, drew, through, hsamples, hdrew, ⟨hthrough, hgone, hevents⟩ |
    ⟨hgoing, hafter, hevents⟩⟩ := conclude_of_mem hlen hconclude hjobs.ids hmem hseq hjob
  · refine ⟨_, hevents, fun hafter => ?_, fun hstatus => ?_⟩
    · cases hgone.symm.trans hafter
    · rw [hgone, hdrew]
      exact (hsamples.move hstatus).1 hthrough
  · refine ⟨_, hevents, fun hafter' => ?_, fun hstatus => ?_⟩
    · cases hafter.symm.trans hafter'
      exact hsamples.seqId
    · rw [hafter, hdrew]
      exact (hsamples.move hstatus).2 hgoing

/-- The batch of the running sequences packs jobs for them. -/
theorem runnable_build (hkeyed : ∀ {id seq}, st.active.lookup id = some seq → seq.seqId = id)
    (cfg : DistributedLoopConfig) (order : IterOrder) :
    ∃ jobs, DistributedBatch.build cfg (st.values order) = .ofJobs jobs ∧ st.Runnable jobs := by
  have hids : ((st.values order).map (·.seqId)).Nodup := by
    have hsub := Assoc.sublist_map_filterMap (fun id => id) hkeyed (order.arrange st.active.keys)
    rw [List.map_id'] at hsub
    exact hsub.nodup ((order.perm _).nodup_iff.2 st.active.nodupKeys)
  obtain ⟨jobs, hbuild, hnodup, hfor⟩ := DistributedBatch.build_eq cfg hids
  refine ⟨jobs, hbuild, hnodup, fun job hjob => ?_⟩
  obtain ⟨seq, hmem, hseq⟩ := hfor job hjob
  obtain ⟨id, -, hlookup⟩ := List.mem_filterMap.1 hmem
  refine ⟨seq, ?_, hseq⟩
  rw [hseq.seqId, hkeyed hlookup, hlookup]

/-- What the log of a turn adds to a request's jobs. -/
def jobsIn (log : Option (DistributedLog π F)) (id : ℕ) : List DistributedJob :=
  (log.toList.flatMap (·.batch.jobs)).filter (·.seqId = id)

/-- What it adds to a request's tokens. -/
def drawnIn (log : Option (DistributedLog π F)) (id : ℕ) : List ℕ :=
  drawnOf id (log.toList.flatMap (·.sampled))

theorem drawnIn_some (log : DistributedLog π F) (id : ℕ) :
    drawnIn (some log) id = drawnOf id log.sampled := by
  simp [drawnIn]

/-- A part of a turn with its log, seen from every request. -/
def Runs (t : DistributedTurn π F) (st : DistributedState π) (log : Option (DistributedLog π F))
    (st' : DistributedState π) : Prop :=
  st'.Sane ∧ ∀ id before drawn, Life.Moves t id (st.lifeOf before drawn id)
    (st'.lifeOf (before ++ jobsIn log id) (drawn ++ drawnIn log id) id)

/-- **A batch, seen from every request.** -/
theorem runBatch_runs (h : st.Sane) (hjobs : st.Runnable jobs) :
    Runs t st (some (runBatch t st (.ofJobs jobs)).1) (runBatch t st (.ofJobs jobs)).2 := by
  have hsane : ∀ pipeline, ({ st with pipeline } : DistributedState π).Sane := fun _ =>
    ⟨h.keyed, h.received, h.pending, h.apart, h.known⟩
  have hrunnable : ∀ pipeline, ({ st with pipeline } : DistributedState π).Runnable jobs := fun _ =>
    ⟨hjobs.ids, hjobs.each⟩
  have hlog : ∀ {result : Except FractureError (List (List F))} {drawn id},
      jobsIn (some { before := st.pipeline, batch := .ofJobs jobs, result, sampled := drawn }) id =
        jobs.filter (·.seqId = id) := by
    intro result drawn id
    simp [jobsIn, DistributedBatch.jobs_ofJobs]
  unfold runBatch
  split
  · next e pipeline _ =>
    obtain ⟨hsane', hmoves⟩ := abortBatch_moves (t := t) (hsane pipeline) (hrunnable pipeline) e rfl
    refine ⟨hsane', fun id before drawn => ?_⟩
    rw [hlog, drawnIn_some]
    exact hmoves id before drawn
  · next flat pipeline _ =>
    have hlen := DistributedBatch.length_splitLogits flat jobs
    obtain ⟨hsane', hmoves⟩ := conclude_moves (t := t) (hsane pipeline) (hrunnable pipeline) hlen rfl
    refine ⟨hsane', fun id before drawn => ?_⟩
    rw [hlog, drawnIn_some]
    exact hmoves id before drawn

end Batch

/-! ## The turn -/

section Turn

variable (cfg : DistributedLoopConfig) (t : DistributedTurn π F) (st : DistributedState π)

variable {st}

/-- Every phase is some moves in the life of every request. -/
theorem keeps_runs (st₀ : DistributedState π) : Keeps cfg t
    (fun st => st.Sane ∧ ∀ id before drawn,
      Life.Moves t id (st₀.lifeOf before drawn id) (st.lifeOf before drawn id))
    (Runs t st₀) := by
  have hpass : ∀ {st st' : DistributedState π}, Passes t st st' →
      (st.Sane ∧ ∀ id before drawn,
        Life.Moves t id (st₀.lifeOf before drawn id) (st.lifeOf before drawn id)) →
      st'.Sane ∧ ∀ id before drawn,
        Life.Moves t id (st₀.lifeOf before drawn id) (st'.lifeOf before drawn id) := by
    rintro st st' hpass ⟨hsane, hmoves⟩
    obtain ⟨hsane', hmoves'⟩ := hpass hsane
    exact ⟨hsane', fun id before drawn => (hmoves id before drawn).trans (hmoves' id before drawn)⟩
  exact {
    switch := fun _ => hpass (.of_same rfl rfl rfl rfl)
    flags := fun _ _ => hpass (.of_same rfl rfl rfl rfl)
    enqueue := fun hnodup hmem => hpass (enqueue_passes hnodup hmem)
    abort := hpass (abortAll_passes t _)
    reject := fun message => hpass (rejectPending_passes _ message _)
    admitOne := hpass (admitOne_passes t cfg)
    idle := by
      rintro st ⟨hsane, hmoves⟩
      refine ⟨hsane, fun id before drawn => ?_⟩
      simpa [jobsIn, drawnIn, drawnOf] using hmoves id before drawn
    batch := by
      rintro st ⟨hsane, hmoves⟩
      obtain ⟨jobs, hbuild, hrunnable⟩ := runnable_build hsane.keyed cfg t.order
      rw [hbuild]
      obtain ⟨hsane', hmoves'⟩ := runBatch_runs (t := t) hsane hrunnable
      exact ⟨hsane', fun id before drawn =>
        (hmoves id before drawn).trans (hmoves' id before drawn)⟩ }

/-- **A turn, seen from every request.** -/
theorem turn_runs (h : st.Sane) (hfresh : st.Fresh t) :
    Runs t st (st.turn cfg t).1 (st.turn cfg t).2 ∧
      (st.turn cfg t).2.received.Sublist (st.received ++ t.arrivals) :=
  (keeps_runs cfg t st).turn hfresh ⟨h, fun _ _ _ => .refl⟩

end Turn

end DistributedState

/-! ## Runs -/

/-- A run of the loop: its state, and the batches so far. -/
structure DistributedTrace (π F : Type) where
  state : DistributedState π
  logs : List (DistributedLog π F)

namespace DistributedTrace

variable (cfg : DistributedLoopConfig)

section

variable (tr : DistributedTrace π F) (id : ℕ) (pipeline : π)

def start : DistributedTrace π F := { state := .start pipeline, logs := [] }

def next (t : DistributedTurn π F) : DistributedTrace π F :=
  { state := (tr.state.turn cfg t).2, logs := tr.logs ++ (tr.state.turn cfg t).1.toList }

/-- The loop from its start on. -/
def serve (turns : List (DistributedTurn π F)) : DistributedTrace π F :=
  run (next cfg) (start pipeline) turns

/-- The jobs of one sequence. -/
def jobsOf : List DistributedJob :=
  (tr.logs.flatMap (·.batch.jobs)).filter (·.seqId = id)

/-- The tokens drawn for one sequence. -/
def drawnOf : List ℕ :=
  Fracture.drawnOf id (tr.logs.flatMap (·.sampled))

def lifeOf : Life :=
  tr.state.lifeOf (tr.jobsOf id) (tr.drawnOf id) id

end

variable {cfg} {tr : DistributedTrace π F} {t : DistributedTurn π F}

/-- **A turn is some moves in the life of every request.** -/
theorem next_moves (cfg : DistributedLoopConfig) (h : tr.state.Sane) (hfresh : tr.state.Fresh t) :
    (tr.next cfg t).state.Sane ∧
      ∀ id, Life.Moves t id (tr.lifeOf id) ((tr.next cfg t).lifeOf id) := by
  obtain ⟨⟨hsane, hmoves⟩, -⟩ := DistributedState.turn_runs cfg t h hfresh
  refine ⟨hsane, fun id => ?_⟩
  have hjobs : (tr.next cfg t).jobsOf id =
      tr.jobsOf id ++ DistributedState.jobsIn (tr.state.turn cfg t).1 id := by
    rw [jobsOf, next, List.flatMap_append, List.filter_append]
    rfl
  have hdrawn : (tr.next cfg t).drawnOf id =
      tr.drawnOf id ++ DistributedState.drawnIn (tr.state.turn cfg t).1 id := by
    rw [drawnOf, next, List.flatMap_append, drawnOf_append]
    rfl
  rw [lifeOf, lifeOf, hjobs, hdrawn]
  exact hmoves id _ _

theorem sane_start (pipeline : π) : (start pipeline : DistributedTrace π F).state.Sane where
  keyed hseq := by cases hseq
  received := List.nodup_nil
  pending := .refl _
  apart _ hreq := by cases hreq
  known hseq := by cases hseq

variable {turns : List (DistributedTurn π F)}

/-- Requests with ids of their own are fresh in every turn. -/
theorem throughout_fresh (cfg : DistributedLoopConfig) (h : tr.state.Sane)
    (hids : ((tr.state.received ++ turns.flatMap (·.arrivals)).map (·.seqId)).Nodup) :
    Throughout (next cfg) (fun tr t => tr.state.Fresh t) tr turns := by
  induction turns generalizing tr with
  | nil => trivial
  | cons t turns ih =>
    rw [List.flatMap_cons, ← List.append_assoc] at hids
    have hfresh : tr.state.Fresh t := by
      rw [List.map_append] at hids
      exact (List.nodup_append.1 hids).1
    obtain ⟨⟨hsane, -⟩, hreceived⟩ := DistributedState.turn_runs cfg t h hfresh
    refine ⟨hfresh, ih hsane ?_⟩
    exact ((hreceived.append (.refl _)).map _).nodup hids

/-- **What every move keeps holds of every life.** -/
theorem lives_keep (cfg : DistributedLoopConfig) (pipeline : π)
    (hids : ((turns.flatMap (·.arrivals)).map (·.seqId)).Nodup) (id : ℕ) (P : Life → Prop)
    (hstart : P { status := .unborn, events := [], jobs := [], drawn := [] })
    (hmove : ∀ t ∈ turns, ∀ {l l'}, P l → l.Move t id l' → P l') :
    P ((serve cfg pipeline turns).lifeOf id) := by
  have hfresh := throughout_fresh cfg (sane_start pipeline) hids
  have hrun := (hfresh.and (throughout_of_forall hmove)).invariant
    (fun tr => tr.state.Sane ∧ P (tr.lifeOf id)) ⟨sane_start pipeline, hstart⟩ ?_
  · exact hrun.2
  · rintro tr t ⟨hsane, hP⟩ ⟨hfresh, hmove⟩
    obtain ⟨hsane', hmoves⟩ := next_moves cfg hsane hfresh
    refine ⟨hsane', ?_⟩
    have hkept : ∀ {l l'}, Life.Moves t id l l' → P l → P l' := by
      intro l l' hmoves hl
      induction hmoves with
      | refl => exact hl
      | tail _ hstep ih => exact hmove ih hstep
    exact hkept (hmoves id) hP

end DistributedTrace

end Fracture
