import Fracture.Distributed.Events
import Fracture.Distributed.Priority

/-!
# Whether a distributed batch can be empty

A running sequence is in a batch with what is left of its prompt, or with
the last token drawn for it. A prompt without tokens has neither: it is
not done, and nothing is left of it, so its sequence is passed over in
every batch. If every prompt has tokens, each running sequence can be in
the next batch, every batch has work in it, and what runs is through after
as many turns as there is work.
-/

namespace Fracture

open Runs Assoc

variable {π F : Type}

namespace DistributedSequence

variable (seq : DistributedSequence)

/-- The sequence can be in a batch: with its prompt, or with a token. -/
def Eligible : Prop := seq.unfed = true ∨ seq.prefillDone = true

/-- The most tokens that will be run or drawn for the sequence. -/
def work : ℕ := seq.remainingPrefill.length + (max 1 seq.maxTokens - seq.generatedTokens.length)

/-- A sequence that can go on, and is not at its limit. -/
structure Thriving : Prop where
  eligible : seq.Eligible
  young : seq.generatedTokens.length < max 1 seq.maxTokens

variable {seq}

theorem Thriving.work_pos (h : seq.Thriving) : 0 < seq.work := by
  have hyoung := h.young
  unfold work
  omega

theorem thriving_activate {req : PendingRequest} (h : req.promptTokens ≠ []) :
    (DistributedState.activate req).Thriving := by
  refine ⟨.inl ?_, ?_⟩
  · simp [unfed, DistributedState.activate, h]
  · change 0 < max 1 req.maxTokens
    omega

/-- A job that is not the last one moves its sequence on. -/
theorem Samples.thriving {t : DistributedTurn π F} {id : ℕ} {job : DistributedJob}
    {after : DistributedSequence} {sent : List GenerationEvent} {drew : List ℕ} {through : Prop}
    (h : seq.Samples t id job after sent drew through) (hgoing : ¬ through) (hseq : seq.Thriving) :
    after.Thriving ∧ (job.tokens ≠ [] → after.work < seq.work) := by
  have hyoung := hseq.young
  cases h with
  | @chunk n hopen hlt hjob =>
    have hleft : (seq.remainingPrefill.drop n).length = seq.remainingPrefill.length - n :=
      List.length_drop
    refine ⟨⟨.inl ?_, hyoung⟩, fun htokens => ?_⟩
    · have hsome : (seq.remainingPrefill.drop n).isEmpty = false := by
        rw [List.isEmpty_eq_false_iff, ← List.length_pos_iff]
        omega
      simp [unfed, advance, hopen, hsome]
    · have hpos : 0 < n := by
        rw [hjob, prefillJob, ← List.length_pos_iff, List.length_take] at htokens
        omega
      unfold work
      change (seq.remainingPrefill.drop n).length + _ < _
      rw [hleft]
      change _ + (max 1 seq.maxTokens - seq.generatedTokens.length) < _
      omega
  | @draw isPrefill seq' logits token hready hok =>
    have hlimit : (seq'.pushToken isPrefill token).generatedTokens.length <
        (seq'.pushToken isPrefill token).maxTokens := by
      simp only [DistributedSequence.through, Bool.or_eq_true, decide_eq_true_eq, not_or] at hgoing
      omega
    have hdone : (seq'.pushToken isPrefill token).prefillDone = true ∧
        seq'.remainingPrefill.length ≤ seq.remainingPrefill.length ∧
        seq'.maxTokens = seq.maxTokens ∧ seq'.generatedTokens = seq.generatedTokens := by
      cases hready with
      | prompt hopen hleft =>
        refine ⟨?_, ?_, rfl, rfl⟩
        · simp [pushToken, advance]
        · simp [advance]
      | decode hdone => exact ⟨hdone, le_rfl, rfl, rfl⟩
    obtain ⟨hdone, hle, hmax, hgenerated⟩ := hdone
    refine ⟨⟨.inr hdone, by omega⟩, fun _ => ?_⟩
    have hcount : (seq'.pushToken isPrefill token).generatedTokens.length =
        seq.generatedTokens.length + 1 := by
      rw [← hgenerated]
      exact List.length_append
    unfold work
    rw [hcount]
    change seq'.remainingPrefill.length + (max 1 seq'.maxTokens - _) < _
    rw [hmax]
    omega
  | botch => exact absurd trivial hgoing

end DistributedSequence

namespace DistributedState

variable {cfg : DistributedLoopConfig} {t : DistributedTurn π F} {st st' : DistributedState π}

/-- All that runs can go on, and every waiting prompt has tokens. -/
structure Thrives (st : DistributedState π) : Prop where
  keyed : ∀ {id seq}, st.active.lookup id = some seq → seq.seqId = id
  active : ∀ {id seq}, st.active.lookup id = some seq → seq.Thriving
  pending : ∀ req ∈ st.pending, req.promptTokens ≠ []

/-- Requests and sequences may go. -/
theorem Thrives.shrink (h : st.Thrives) (hpending : st'.pending ⊆ st.pending)
    (hactive : ∀ {id seq}, st'.active.lookup id = some seq → st.active.lookup id = some seq) :
    st'.Thrives :=
  ⟨fun hseq => h.keyed (hactive hseq), fun hseq => h.active (hactive hseq),
    fun req hreq => h.pending req (hpending hreq)⟩

theorem Thrives.removeAll (h : st.Thrives) (event : DistributedSequence → GenerationEvent)
    (release : ℕ → π → π) (ids : List ℕ) : (ids.foldl (removeSeq event release) st).Thrives := by
  obtain ⟨hpending, -, hlookup, -⟩ := foldl_removeSeq event release ids st
  refine h.shrink (by rw [hpending]; exact fun _ h => h) fun {id seq} hseq => ?_
  rw [hlookup] at hseq
  split at hseq
  · cases hseq
  · exact hseq

theorem Thrives.admitOne (h : st.Thrives) : (st.admitOne cfg t).Thrives := by
  unfold DistributedState.admitOne
  split
  · exact h
  · next req pending hpending =>
    have hfirst : req.promptTokens ≠ [] := h.pending req (by rw [hpending]; exact .head _)
    have hrest : ∀ r ∈ pending, r.promptTokens ≠ [] :=
      fun r hr => h.pending r (by rw [hpending]; exact .tail _ hr)
    split
    · split
      · refine ⟨fun hseq => ?_, fun hseq => ?_, hrest⟩
        · rcases lookup_insert_eq_some.1 hseq with ⟨rfl, rfl⟩ | ⟨-, hseq⟩
          · rfl
          · exact h.keyed hseq
        · rcases lookup_insert_eq_some.1 hseq with ⟨rfl, rfl⟩ | ⟨-, hseq⟩
          · exact DistributedSequence.thriving_activate hfirst
          · exact h.active hseq
      · exact ⟨h.keyed, h.active, hrest⟩
    · exact h

/-! ## A batch -/

/-- The jobs of the next batch have tokens. -/
theorem Thrives.jobs (h : st.Thrives) (cfg : DistributedLoopConfig) (order : IterOrder) :
    ∃ jobs, DistributedBatch.build cfg (st.values order) = .ofJobs jobs ∧ st.Runnable jobs ∧
      (0 < cfg.maxPrefillTokens → ∀ job ∈ jobs, job.tokens ≠ []) := by
  obtain ⟨jobs, hbuild, hrunnable⟩ := runnable_build h.keyed cfg order
  refine ⟨jobs, hbuild, hrunnable, fun hpos job hjob => ?_⟩
  obtain ⟨prefills, htaken, htook, -⟩ := DistributedBatch.build_taken cfg (st.values order)
  have hsame : jobs = prefills ++
      (DistributedBatch.decodesTaken cfg (st.values order) prefills).map (·.decodeJob) := by
    rw [← DistributedBatch.jobs_ofJobs jobs, ← hbuild, htaken, DistributedBatch.jobs_ofJobs]
  rw [hsame] at hjob
  rcases List.mem_append.1 hjob with hjob | hjob
  · obtain ⟨seq, hseq, n, hn, rfl⟩ := htook.each job hjob
    have hlen := List.length_pos_iff.2 (seq.of_unfed (List.mem_filter.1 hseq).2).2
    rw [DistributedSequence.prefillJob, ← List.length_pos_iff, List.length_take]
    omega
  · obtain ⟨seq, -, rfl⟩ := List.mem_map.1 hjob
    exact List.cons_ne_nil _ _

/-- **With room for anything, a sequence that can be in a batch makes the
batch non-empty.** -/
theorem seqIds_build_ne_nil (hsize : 0 < cfg.maxBatchSize) (htokens : 0 < cfg.maxBatchTokens)
    {seqs : List DistributedSequence} {seq : DistributedSequence} (hmem : seq ∈ seqs)
    (h : seq.Eligible) : (DistributedBatch.build cfg seqs).seqIds ≠ [] := by
  obtain ⟨prefills, htaken, htook, -⟩ := DistributedBatch.build_taken cfg seqs
  rw [htaken, DistributedBatch.seqIds_ofJobs, ne_eq, List.map_eq_nil_iff, List.append_eq_nil_iff]
  rintro ⟨hprefills, hdecodes⟩
  -- an empty batch is not full
  have hprompts : seqs.filter (·.unfed) = [] := by
    refine (htook.none.1 hprefills).resolve_right fun hfull => ?_
    have hwhy := DistributedBatch.full_ofJobs.1 hfull
    have hzero : DistributedBatch.jobTokens [] = 0 := rfl
    rw [hzero, List.length_nil] at hwhy
    omega
  rcases h with hunfed | hdone
  · exact List.ne_nil_of_mem (List.mem_filter.2 ⟨hmem, hunfed⟩) hprompts
  · have hin : seq ∈ seqs.filter (·.prefillDone) := List.mem_filter.2 ⟨hmem, hdone⟩
    have hlen := List.length_pos_of_mem hin
    have hzero : DistributedBatch.jobTokens [] = 0 := rfl
    rw [List.map_eq_nil_iff, DistributedBatch.decodesTaken, hprefills, List.take_eq_nil_iff, hzero,
      List.length_nil] at hdecodes
    rcases hdecodes with hroom | hnone
    · omega
    · rw [hnone] at hlen
      cases hlen

variable {jobs : List DistributedJob}

/-- What is left of a batch: sequences without a job are as before, and
those with one that are still there have sampled. -/
theorem runBatch_each (hjobs : st.Runnable jobs) :
    (runBatch t st (.ofJobs jobs)).2.pending = st.pending ∧
    (∀ {id}, id ∉ jobs.map (·.seqId) →
      (runBatch t st (.ofJobs jobs)).2.active.lookup id = st.active.lookup id) ∧
    ∀ job ∈ jobs, ∀ {after}, (runBatch t st (.ofJobs jobs)).2.active.lookup job.seqId = some after →
      ∃ seq sent drew through, st.active.lookup job.seqId = some seq ∧
        seq.Samples t job.seqId job after sent drew through ∧ ¬ through := by
  unfold runBatch
  split
  · next e pipeline _ =>
    obtain ⟨hpending, -, hlookup, -⟩ := foldl_removeSeq
      (fun _ => .error ("forward pass failed: " ++ e.display)) t.ops.freeCacheBestEffort
      (jobs.map (·.seqId)) { st with pipeline }
    refine ⟨hpending, fun {id} hid => (hlookup id).trans (if_neg hid), fun job hjob after hafter => ?_⟩
    have hgone := (hlookup job.seqId).trans (if_pos (List.mem_map_of_mem hjob))
    cases hgone.symm.trans hafter
  · next flat pipeline _ =>
    have hlen := DistributedBatch.length_splitLogits flat jobs
    generalize splitLogitsPerSequence flat (DistributedBatch.ofJobs jobs).metas.length = logits at hlen
    have hpending : (conclude t { st with pipeline } (.ofJobs jobs) logits).2.pending = st.pending :=
      (foldl_removeSeq ..).1
    have hconclude := (Prod.eta (conclude t { st with pipeline } (.ofJobs jobs) logits)).symm
    refine ⟨hpending, fun {id} hid => ?_, fun job hjob after hafter => ?_⟩
    · exact (conclude_of_notMem hlen hconclude hid).1
    · obtain ⟨seq, hseq, hfor⟩ := hjobs.each job hjob
      obtain ⟨after', sent, drew, through, hsamples, -, ⟨-, hgone, -⟩ | ⟨hgoing, hafter', -⟩⟩ :=
        conclude_of_mem hlen hconclude hjobs.ids hjob hseq hfor
      · cases hgone.symm.trans hafter
      · cases hafter'.symm.trans hafter
        exact ⟨seq, sent, drew, through, hseq, hsamples, hgoing⟩

theorem Thrives.runBatch (h : st.Thrives) (hjobs : st.Runnable jobs) :
    (runBatch t st (.ofJobs jobs)).2.Thrives := by
  obtain ⟨hpending, hothers, hsampled⟩ := runBatch_each (t := t) hjobs
  have heach : ∀ {id after}, (DistributedState.runBatch t st (.ofJobs jobs)).2.active.lookup id =
      some after → after.seqId = id ∧ after.Thriving := by
    intro id after hafter
    by_cases hid : id ∈ jobs.map (·.seqId)
    · obtain ⟨job, hjob, rfl⟩ := List.mem_map.1 hid
      obtain ⟨seq, sent, drew, through, hseq, hsamples, hgoing⟩ := hsampled job hjob hafter
      exact ⟨hsamples.seqId.trans (h.keyed hseq), (hsamples.thriving hgoing (h.active hseq)).1⟩
    · rw [hothers hid] at hafter
      exact ⟨h.keyed hafter, h.active hafter⟩
  exact ⟨fun hafter => (heach hafter).1, fun hafter => (heach hafter).2,
    fun req hreq => h.pending req (hpending ▸ hreq)⟩

/-! ## Work -/

/-- The most tokens that will be run or drawn for all requests. -/
def workLeft (st : DistributedState π) : ℕ :=
  (st.pending.map fun req => req.promptTokens.length + max 1 req.maxTokens).sum +
    total (fun _ seq => seq.work) st.active

/-- A batch that is not empty does some of the work. -/
theorem Thrives.workLeft_runBatch (h : st.Thrives) (hjobs : st.Runnable jobs) (hne : jobs ≠ [])
    (htokens : ∀ job ∈ jobs, job.tokens ≠ []) :
    (DistributedState.runBatch t st (.ofJobs jobs)).2.workLeft < st.workLeft := by
  obtain ⟨hpending, hothers, hsampled⟩ := runBatch_each (t := t) hjobs
  have hless : ∀ job ∈ jobs, ∀ {after},
      (DistributedState.runBatch t st (.ofJobs jobs)).2.active.lookup job.seqId = some after →
      ∃ seq, st.active.lookup job.seqId = some seq ∧ after.work < seq.work := by
    intro job hjob after hafter
    obtain ⟨seq, sent, drew, through, hseq, hsamples, hgoing⟩ := hsampled job hjob hafter
    exact ⟨seq, hseq, (hsamples.thriving hgoing (h.active hseq)).2 (htokens job hjob)⟩
  have htotal : total (fun _ seq => seq.work)
      (DistributedState.runBatch t st (.ofJobs jobs)).2.active <
      total (fun _ seq => seq.work) st.active := by
    obtain ⟨first, hfirst⟩ := List.exists_mem_of_ne_nil _ hne
    obtain ⟨seq, hseq, -⟩ := hjobs.each first hfirst
    refine total_lt_total (fun {id after} hafter => ?_) hseq (h.active hseq).work_pos
      fun {after} hafter => ?_
    · by_cases hid : id ∈ jobs.map (·.seqId)
      · obtain ⟨job, hjob, rfl⟩ := List.mem_map.1 hid
        obtain ⟨before, hbefore, hlt⟩ := hless job hjob hafter
        exact ⟨before, hbefore, hlt.le⟩
      · exact ⟨after, hothers hid ▸ hafter, le_rfl⟩
    · obtain ⟨before, hbefore, hlt⟩ := hless first hfirst hafter
      cases hbefore.symm.trans hseq
      exact hlt
  unfold workLeft
  rw [hpending]
  omega

/-- Taking a request in adds no work. -/
theorem workLeft_admitOne : (st.admitOne cfg t).workLeft ≤ st.workLeft := by
  unfold DistributedState.admitOne
  split
  · exact le_rfl
  · next req pending hpending =>
    have hsum : (st.pending.map fun req => req.promptTokens.length + max 1 req.maxTokens).sum =
        req.promptTokens.length + max 1 req.maxTokens +
          (pending.map fun req => req.promptTokens.length + max 1 req.maxTokens).sum := by
      rw [hpending, List.map_cons, List.sum_cons]
    split
    · split
      · have hwork : (activate req).work = req.promptTokens.length + max 1 req.maxTokens := rfl
        have herase : total (fun _ seq => seq.work) (st.active.erase req.seqId) ≤
            total (fun _ seq => seq.work) st.active :=
          total_le_total fun hseq => ⟨_, (lookup_erase_eq_some.1 hseq).2, le_rfl⟩
        unfold workLeft
        dsimp only
        rw [total_insert, hwork, hsum]
        omega
      · unfold workLeft
        dsimp only
        omega
    · exact le_rfl

/-! ## A turn -/

section

variable (cfg) (hprompts : ∀ req ∈ t.arrivals, req.promptTokens ≠ [])
include hprompts

/-- Every phase keeps what thrives, if the requests of the turn have
prompts with tokens. -/
theorem walks_thrives :
    Walks cfg t (fun _ _ => True) Thrives (fun _ (st : DistributedState π) => st.Thrives) where
  switch _ h := ⟨h.keyed, h.active, h.pending⟩
  flags _ _ h := ⟨h.keyed, h.active, h.pending⟩
  enqueue _ hmem h := by
    exact ⟨h.keyed, h.active, List.forall_mem_append.2
      ⟨h.pending, fun req hreq => hprompts req (hmem req hreq)⟩⟩
  abort {st} h := by
    have hsame : ({ st with pipeline := (t.ops.abortAllSequences st.pipeline).2 } :
        DistributedState π).Thrives := ⟨h.keyed, h.active, h.pending⟩
    exact hsame.removeAll _ _ _
  reject _ h := ⟨h.keyed, h.active, List.forall_mem_nil _⟩
  admitOne h := h.admitOne
  idle h := h
  batch {st} h := by
    obtain ⟨jobs, hbuild, hrunnable, -⟩ := h.jobs cfg t.order
    rw [hbuild]
    exact h.runBatch hrunnable

theorem Thrives.turn (h : st.Thrives) : (st.turn cfg t).2.Thrives :=
  ((walks_thrives cfg hprompts).turn trivial (fun _ _ => trivial) h).1

end

/-- Something runs, so it is among the values of the map. -/
theorem exists_mem_values (h : st.active.keys ≠ []) (order : IterOrder) :
    ∃ seq ∈ st.values order, ∃ id, st.active.lookup id = some seq := by
  obtain ⟨id, hid⟩ := List.exists_mem_of_ne_nil _ h
  obtain ⟨seq, hseq⟩ := Option.isSome_iff_exists.1 (AList.lookup_isSome.2 (AList.mem_keys.2 hid))
  exact ⟨seq, List.mem_filterMap.2 ⟨id, (order.perm _).mem_iff.2 hid, hseq⟩, id, hseq⟩

section Positive

variable (hsize : 0 < cfg.maxBatchSize) (htokens : 0 < cfg.maxBatchTokens)
include hsize htokens

/-- **If something runs, there is a batch.** -/
theorem Thrives.seqIds_build (h : st.Thrives) (hactive : st.active.keys ≠ []) (order : IterOrder) :
    (DistributedBatch.build cfg (st.values order)).seqIds ≠ [] := by
  obtain ⟨seq, hmem, id, hseq⟩ := exists_mem_values hactive order
  exact seqIds_build_ne_nil hsize htokens hmem (h.active hseq).eligible

/-- Serving runs a batch, or nothing runs. -/
theorem Thrives.serve_cases (h : st.Thrives) :
    (st.admitOne cfg t).active.keys = [] ∧ st.serve cfg t = (none, st.admitOne cfg t) ∨
    (st.admitOne cfg t).active.keys ≠ [] ∧ ∃ jobs, jobs ≠ [] ∧
      DistributedBatch.build cfg ((st.admitOne cfg t).values t.order) = .ofJobs jobs ∧
      (st.admitOne cfg t).Runnable jobs ∧
      (0 < cfg.maxPrefillTokens → ∀ job ∈ jobs, job.tokens ≠ []) ∧
      st.serve cfg t = (some (DistributedState.runBatch t (st.admitOne cfg t) (.ofJobs jobs)).1,
        (DistributedState.runBatch t (st.admitOne cfg t) (.ofJobs jobs)).2) := by
  have hadmitted : (st.admitOne cfg t).Thrives := h.admitOne
  unfold serve
  dsimp only
  split
  · next hempty => exact .inl ⟨List.isEmpty_iff.1 hempty, rfl⟩
  · next hsome =>
    have hactive : (st.admitOne cfg t).active.keys ≠ [] := fun hnil => hsome (List.isEmpty_iff.2 hnil)
    obtain ⟨jobs, hbuild, hrunnable, hjobs⟩ := hadmitted.jobs cfg t.order
    have hbatch := hadmitted.seqIds_build hsize htokens hactive t.order
    rw [hbuild] at hbatch ⊢
    have hne : jobs ≠ [] := by
      rintro rfl
      exact hbatch rfl
    rw [if_neg fun hnil => hbatch (List.isEmpty_iff.1 hnil)]
    exact .inr ⟨hactive, jobs, hne, rfl, hrunnable, hjobs, rfl⟩

/-- **A turn runs a batch**, unless nothing runs after it or the pipeline
is degraded. -/
theorem Thrives.batch_of_turn (h : st.Thrives) (hprompts : ∀ req ∈ t.arrivals, req.promptTokens ≠ [])
    (hstopped : st.stopped = true → st.active.keys = []) :
    (st.turn cfg t).1.isSome ∨ (st.turn cfg t).2.active.keys = [] ∨
      (st.turn cfg t).2.pipelineDegraded = true := by
  obtain ⟨st', hthrives, -, ⟨hturn, hend⟩ | ⟨hturn, -⟩⟩ :=
    (walks_thrives cfg hprompts).cases st trivial (fun _ _ => trivial) h
  · rw [hturn]
    rcases hend with ⟨rfl, hstop⟩ | hnone | ⟨-, hdegraded⟩
    · exact .inr (.inl (hstopped hstop))
    · exact .inr (.inl hnone)
    · exact .inr (.inr hdegraded)
  · rw [hturn]
    rcases hthrives.serve_cases hsize htokens with ⟨hnone, hserve⟩ | ⟨-, jobs, -, -, -, -, hserve⟩
    · rw [hserve]
      exact .inr (.inl hnone)
    · rw [hserve]
      exact .inl rfl

/-- A turn with nothing from outside but a pipeline that works. -/
def Quiet (st : DistributedState π) (t : DistributedTurn π F) : Prop :=
  t.arrivals = [] ∧ t.deadIds = [] ∧ (st.pipelineDegraded = false ∨ t.reconfigured.isSome)

instance (st : DistributedState π) (t : DistributedTurn π F) : Decidable (st.Quiet t) :=
  inferInstanceAs (Decidable (_ ∧ _ ∧ _))

omit hsize htokens in
/-- Such a turn goes straight to its batch. -/
theorem turn_of_quiet (cfg : DistributedLoopConfig) (hquiet : st.Quiet t) (hactive : st.active.keys ≠ [])
    (hgoing : st.stopped = false) :
    ∃ pipeline, st.turn cfg t = (st.switchTo pipeline).serve cfg t := by
  obtain ⟨harrivals, hdead, hpipeline⟩ := hquiet
  have hsubmitted : t.submitted = [] := (List.append_eq_nil_iff.1 harrivals).1
  have hstart : ∃ pipeline, (st.checkReconfigured t).enqueue t.submitted =
      st.switchTo pipeline := by
    rw [hsubmitted]
    unfold checkReconfigured enqueue
    split
    · next pipeline _ =>
      refine ⟨pipeline, ?_⟩
      simp [switchTo]
    · next hnone =>
      refine ⟨st.pipeline, ?_⟩
      have hworks : st.pipelineDegraded = false := by
        refine hpipeline.resolve_right fun hsome => ?_
        rw [hnone] at hsome
        cases hsome
      rw [List.append_nil, List.append_nil]
      cases st
      cases hworks
      rfl
  obtain ⟨pipeline, hstart⟩ := hstart
  refine ⟨pipeline, ?_⟩
  unfold turn
  rw [if_neg (by rw [hgoing]; exact Bool.false_ne_true)]
  dsimp only
  rw [hstart]
  have hbusy : ¬ (st.switchTo pipeline).active.keys.isEmpty = true :=
    fun hnil => hactive (List.isEmpty_iff.1 hnil)
  have hbury : (st.switchTo pipeline).buryDead cfg t = st.switchTo pipeline := by
    unfold buryDead
    rw [hdead]
    rfl
  have hrebalance : (st.switchTo pipeline).rebalance cfg t = st.switchTo pipeline := by
    unfold rebalance
    rw [if_neg]
    simp [hbusy]
  have hwait : (st.switchTo pipeline).waitForWork t = (st.switchTo pipeline, true) := by
    unfold waitForWork
    rw [if_neg]
    simp [hbusy]
  rw [if_neg (by simp [hbusy]), hbury, hrebalance, hwait]
  rfl

omit hsize htokens in
theorem keys_admitOne (h : st.active.keys ≠ []) : (st.admitOne cfg t).active.keys ≠ [] := by
  unfold admitOne
  split
  · exact h
  · split
    · split
      · rw [AList.keys_insert]
        exact List.cons_ne_nil _ _
      · exact h
    · exact h

/-- **A quiet turn does some of the work.** -/
theorem Thrives.workLeft_turn (h : st.Thrives) (hprefill : 0 < cfg.maxPrefillTokens)
    (hquiet : st.Quiet t) (hactive : st.active.keys ≠ []) (hgoing : st.stopped = false) :
    (st.turn cfg t).2.workLeft < st.workLeft := by
  obtain ⟨pipeline, hturn⟩ := turn_of_quiet cfg hquiet hactive hgoing
  have hthrives : (st.switchTo pipeline).Thrives := ⟨h.keyed, h.active, h.pending⟩
  have hleft : (st.switchTo pipeline).workLeft = st.workLeft := rfl
  have hbusy : (st.switchTo pipeline).active.keys ≠ [] := hactive
  rw [hturn, ← hleft]
  rcases hthrives.serve_cases (t := t) hsize htokens with ⟨hnone, -⟩ |
    ⟨-, jobs, hne, -, hrunnable, hjobs, hserve⟩
  · exact absurd hnone (keys_admitOne hbusy)
  · rw [hserve]
    exact (hthrives.admitOne.workLeft_runBatch hrunnable hne (hjobs hprefill)).trans_le
      workLeft_admitOne

end Positive

end DistributedState

namespace DistributedTrace

open DistributedState

variable {cfg : DistributedLoopConfig}

/-- What thrives is through after as many quiet turns as there is work. -/
theorem drains_of_thrives (hsize : 0 < cfg.maxBatchSize) (htokens : 0 < cfg.maxBatchTokens)
    (hprefill : 0 < cfg.maxPrefillTokens) {tr : DistributedTrace π F} (h : tr.state.Thrives)
    (hstopped : tr.state.stopped = true → tr.state.active.keys = [])
    {turns : List (DistributedTurn π F)}
    (hquiet : Throughout (next cfg) (fun tr t => tr.state.Quiet t) tr turns)
    (hwork : tr.state.workLeft ≤ turns.length) :
    ∃ front, front <+: turns ∧ (run (next cfg) tr front).state.active.keys = [] := by
  induction turns generalizing tr with
  | nil =>
    refine ⟨[], List.prefix_rfl, ?_⟩
    -- no work is left, so nothing runs
    change tr.state.active.keys = []
    by_contra hactive
    obtain ⟨seq, -, id, hseq⟩ := exists_mem_values hactive .stored
    have hpos := (h.active hseq).work_pos
    have htotal := total_of_lookup (w := fun _ seq => seq.work) hseq
    unfold workLeft at hwork
    rw [List.length_nil] at hwork
    omega
  | cons t turns ih =>
    by_cases hactive : tr.state.active.keys = []
    · exact ⟨[], List.nil_prefix, hactive⟩
    · obtain ⟨hfirst, hrest⟩ := hquiet
      have hgoing : tr.state.stopped = false := by
        rw [← Bool.not_eq_true]
        exact fun hstop => hactive (hstopped hstop)
      have hless := h.workLeft_turn hsize htokens hprefill hfirst hactive hgoing
      have hnone : ∀ req ∈ t.arrivals, req.promptTokens ≠ [] := by
        rw [hfirst.1]
        exact List.forall_mem_nil _
      rw [List.length_cons] at hwork
      have hnext : (tr.next cfg t).state.Thrives := h.turn cfg hnone
      have hleft : (tr.next cfg t).state.workLeft ≤ turns.length := by
        change (tr.state.turn cfg t).2.workLeft ≤ _
        omega
      obtain ⟨front, hfront, hend⟩ :=
        ih hnext (active_of_stopped hstopped) hrest hleft
      exact ⟨t :: front, (List.prefix_cons_inj t).2 hfront, hend⟩

/-- **If every prompt has tokens, every running sequence can be in the next
batch.** Then there is a batch whenever something runs, and what runs is
through after as many quiet turns as there is work left. -/
theorem eligible_of_prompts (cfg : DistributedLoopConfig) (hsize : 0 < cfg.maxBatchSize)
    (htokens : 0 < cfg.maxBatchTokens) (hprefill : 0 < cfg.maxPrefillTokens) (pipeline : π)
    (turns : List (DistributedTurn π F))
    (hprompts : ∀ t ∈ turns, ∀ req ∈ t.arrivals, req.promptTokens ≠ []) :
    (∀ {id seq}, (serve cfg pipeline turns).state.active.lookup id = some seq → seq.Eligible) ∧
    ((serve cfg pipeline turns).state.active.keys ≠ [] → ∀ order,
      (DistributedBatch.build cfg ((serve cfg pipeline turns).state.values order)).seqIds ≠ []) ∧
    (∀ t : DistributedTurn π F, (∀ req ∈ t.arrivals, req.promptTokens ≠ []) →
      ((serve cfg pipeline turns).state.turn cfg t).1.isSome ∨
        ((serve cfg pipeline turns).next cfg t).state.active.keys = [] ∨
        ((serve cfg pipeline turns).next cfg t).state.pipelineDegraded = true) ∧
    ∀ more, Throughout (next cfg) (fun tr t => tr.state.Quiet t) (serve cfg pipeline turns) more →
      (serve cfg pipeline turns).state.workLeft ≤ more.length →
      ∃ front, front <+: more ∧
        (run (next cfg) (serve cfg pipeline turns) front).state.active.keys = [] := by
  have hreached : (serve cfg pipeline turns).state.Thrives ∧
      ((serve cfg pipeline turns).state.stopped = true →
        (serve cfg pipeline turns).state.active.keys = []) := by
    refine (throughout_of_forall hprompts).invariant
      (fun tr : DistributedTrace π F =>
        tr.state.Thrives ∧ (tr.state.stopped = true → tr.state.active.keys = []))
      ⟨⟨nofun, nofun, nofun⟩, nofun⟩
      fun {tr t} htr ht => ⟨htr.1.turn cfg ht, active_of_stopped htr.2⟩
  obtain ⟨hthrives, hstopped⟩ := hreached
  refine ⟨fun hseq => (hthrives.active hseq).eligible, fun hactive order =>
    hthrives.seqIds_build hsize htokens hactive order, fun t ht =>
    hthrives.batch_of_turn hsize htokens ht hstopped, fun more hquiet hwork =>
    drains_of_thrives hsize htokens hprefill hthrives hstopped hquiet hwork⟩

/-- An empty prompt is taken in, and no batch is ever built for it. -/
theorem empty_prompt_stays :
    ∃ seq, (serve ⟨4, 4, 4, 0, false⟩ ()
        [.plain [.greedy 7 [] 4] fun _ _ _ => .ok 9]).state.active.lookup 7 = some seq ∧
      ¬ seq.Eligible ∧
      (DistributedBatch.build ⟨4, 4, 4, 0, false⟩ ((serve ⟨4, 4, 4, 0, false⟩ ()
        [.plain [.greedy 7 [] 4] fun _ _ _ => .ok 9]).state.values .stored)).seqIds = [] ∧
      (serve ⟨4, 4, 4, 0, false⟩ () [.plain [.greedy 7 [] 4] fun _ _ _ => .ok 9,
        .plain [] fun _ _ _ => .ok 9, .plain [] fun _ _ _ => .ok 9]).state.active.lookup 7 =
          some seq := by
  refine ⟨activate (.greedy 7 [] 4), by decide +kernel, ?_, by decide +kernel, by decide +kernel⟩
  rintro (hunfed | hdone)
  · cases hunfed
  · cases hdone

/-- A prompt of two tokens and its turns. -/
def oneReply : List (DistributedTurn Unit ℕ) := [.plain [.greedy 7 [5, 6] 4] fun _ _ _ => .ok 9]

def quietTurns : List (DistributedTurn Unit ℕ) := List.replicate 5 (.plain [] fun _ _ _ => .ok 9)

theorem eligible_oneReply :
    ((∀ t ∈ oneReply, ∀ req ∈ t.arrivals, req.promptTokens ≠ []) ∧
      Throughout (next ⟨4, 4, 4, 0, false⟩) (fun tr t => tr.state.Quiet t)
        (serve ⟨4, 4, 4, 0, false⟩ () oneReply) quietTurns ∧
      (serve ⟨4, 4, 4, 0, false⟩ () oneReply).state.workLeft ≤ quietTurns.length) ∧
    (∀ {id seq}, (serve ⟨4, 4, 4, 0, false⟩ () oneReply).state.active.lookup id = some seq →
      seq.Eligible) ∧
    ∃ front, front <+: quietTurns ∧ (run (next ⟨4, 4, 4, 0, false⟩)
      (serve ⟨4, 4, 4, 0, false⟩ () oneReply) front).state.active.keys = [] := by
  have hprompts : ∀ t ∈ oneReply, ∀ req ∈ t.arrivals, req.promptTokens ≠ [] := by
    intro t ht
    obtain rfl := List.mem_singleton.1 ht
    decide
  have hall := eligible_of_prompts ⟨4, 4, 4, 0, false⟩ (by decide) (by decide) (by decide) ()
    oneReply hprompts
  refine ⟨⟨hprompts, ?quiet, ?work⟩, hall.1, hall.2.2.2 quietTurns ?quiet ?work⟩
  · decide +kernel
  · decide +kernel

end DistributedTrace

end Fracture
