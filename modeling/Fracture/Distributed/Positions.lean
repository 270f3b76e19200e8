import Fracture.Distributed.Caches
import Fracture.Distributed.Stream

/-!
# Positions and caches

The coordinator counts a sequence's position, the workers the rows of its
cache, and neither tells the other. As long as batches come through, the
two agree: before every batch each worker has as many rows for a sequence
as the position its job starts at.
-/

namespace Fracture

open Effect Runs

variable {R W F : Type} {b : Backend R W F}

/-! ## The position a sequence is at -/

namespace DistributedSequence

variable {seq : DistributedSequence} {job : DistributedJob}

/-- The tokens of a sequence that have been run. -/
def cached (seq : DistributedSequence) : ℕ :=
  if seq.prefillDone then seq.currentPos else seq.startPos

theorem cached_activate (req : PendingRequest) : (DistributedState.activate req).cached = 0 :=
  Nat.sub_self _

/-- A job's positions count on from there. -/
theorem JobFor.positions_eq (h : seq.JobFor job)
    (hlen : job.positions.length = job.tokens.length) :
    job.positions = (List.range' seq.cached job.tokens.length).map asU32 := by
  cases h with
  | @prefill n hopen hleft hle =>
    have hcount : (seq.prefillJob n).tokens.length = n := by
      rw [prefillJob, List.length_take, Nat.min_eq_left hle]
    have hfits := length_chunkPositions.1 (hlen.trans hcount)
    have hcached : seq.cached = seq.startPos := by rw [cached, hopen]; rfl
    rw [hcount, hcached]
    refine List.ext_getElem (by rw [hlen, hcount]; simp) fun i hi _ => ?_
    have hi' : i < n := by rwa [hlen, hcount] at hi
    simp only [prefillJob, chunkPositions, List.getElem_range', List.getElem_map, asU32] at hfits ⊢
    omega
  | decode hdone =>
    have hcached : seq.cached = seq.currentPos := by rw [cached, hdone]; rfl
    rw [hcached]
    rfl

/-- A sequence that goes on has its job's tokens behind it. -/
theorem Samples.cached_eq {π : Type} {t : DistributedTurn π F} {id : ℕ}
    {after : DistributedSequence} {sent : List GenerationEvent} {drew : List ℕ} {through : Prop}
    (h : seq.Samples t id job after sent drew through) (hgoing : ¬ through) :
    after.cached = seq.cached + job.tokens.length := by
  have hbehind := seq.behind
  cases h with
  | @chunk n hopen hlt hjob =>
    rw [hjob, cached, cached, advance_open hopen hlt, hopen, prefillJob, List.length_take]
    simp only [startPos, advance_currentPos, advance_remainingPrefill, List.length_drop,
      Bool.false_eq_true, if_false]
    omega
  | draw hready =>
    cases hready with
    | prompt hopen hleft =>
      have hdone : (seq.advance seq.remainingPrefill.length).prefillDone = true := by simp
      rw [cached, cached, pushToken_prefillDone, hdone, hopen, prefillJob, List.take_length]
      simp only [startPos, pushToken_currentPos, advance_currentPos, Bool.false_eq_true, if_false,
        if_true]
      omega
    | decode hdone =>
      rw [cached, cached, pushToken_prefillDone, hdone]
      rfl
  | botch => exact absurd trivial hgoing

end DistributedSequence

/-! ## The agreement -/

namespace DistributedState

/-- The request was received and waits no longer. -/
def Past {π : Type} (st : DistributedState π) (id : ℕ) : Prop :=
  id ∈ st.received.map (·.seqId) ∧ id ∉ st.pending.map (·.seqId)

/-- The workers have caches for past requests only, and for each running
sequence the rows that were run. -/
structure Held (st : DistributedState (Cluster R W)) : Prop where
  tidy : st.pipeline.Tidy
  known : ∀ s ∈ st.pipeline.stages, ∀ {id}, id ∈ s.host.handles → st.Past id
  allocated : ∀ {id}, id ∈ st.pipeline.allocatedSeqs → st.Past id
  lens : ∀ {id}, id ∈ st.pipeline.allocatedSeqs → ∀ {seq}, st.active.lookup id = some seq →
    ∀ s ∈ st.pipeline.stages, ∀ {n}, s.host.lenFor id = some n → n = seq.cached

end DistributedState

/-- A pipeline as it is put together: nothing is allocated, and what the
workers still have is of past requests. -/
structure Cluster.Offered (past : ℕ → Prop) (cl : Cluster R W) : Prop where
  tidy : cl.Tidy
  known : ∀ s ∈ cl.stages, ∀ {id}, id ∈ s.host.handles → past id
  idle : cl.allocatedSeqs = []

namespace DistributedState

variable {st st' : DistributedState (Cluster R W)}

namespace Held

/-- The requests stay past, and running sequences may go. -/
theorem shrink (h : st.Held) (hpipeline : st'.pipeline = st.pipeline)
    (hpast : ∀ {id}, st.Past id → st'.Past id)
    (hactive : ∀ {id seq}, st'.active.lookup id = some seq → st.active.lookup id = some seq) :
    st'.Held where
  tidy := hpipeline ▸ h.tidy
  known s hs _ hid := hpast (h.known s (hpipeline ▸ hs) hid)
  allocated hid := hpast (h.allocated (hpipeline ▸ hid))
  lens hid _ hseq s hs _ hlen := h.lens (hpipeline ▸ hid) (hactive hseq) s (hpipeline ▸ hs) hlen

/-- Another pipeline. -/
theorem offered (hoffered : st'.pipeline.Offered st'.Past) : st'.Held where
  tidy := hoffered.tidy
  known s hs _ hid := hoffered.known s hs hid
  allocated hid := by
    rw [hoffered.idle] at hid
    cases hid
  lens hid := by
    rw [hoffered.idle] at hid
    cases hid

/-- A sequence starts to run. -/
theorem enter (h : st.Held) {id : ℕ} {seq : DistributedSequence}
    (hst' : st' = { st with active := st.active.insert id seq })
    (hlens : ∀ s ∈ st.pipeline.stages, ∀ n, s.host.lenFor id = some n → n = seq.cached) :
    st'.Held where
  tidy := hst' ▸ h.tidy
  known := hst' ▸ h.known
  allocated := hst' ▸ h.allocated
  lens {id'} hid seq' hseq s hs n hlen := by
    subst hst'
    rcases Assoc.lookup_insert_eq_some.1 hseq with ⟨rfl, rfl⟩ | ⟨-, hseq⟩
    · exact hlens s hs n hlen
    · exact h.lens hid hseq s hs hlen

/-- The caches of sequences that do not run any more are touched. -/
theorem aside {ids : List ℕ} (h : st.Held) (haside : st.pipeline.Aside ids st'.pipeline)
    (hpast : ∀ {id}, st.Past id → st'.Past id) (hids : ∀ id ∈ ids, st'.Past id)
    (hactive : ∀ {id seq}, st'.active.lookup id = some seq →
      st.active.lookup id = some seq ∧ id ∉ ids) : st'.Held where
  tidy := haside.tidy
  known s' hs' id hid := by
    obtain ⟨s, hs, hhost⟩ := haside.stages s' hs'
    rcases hhost.known hid with hid | hid
    · exact hpast (h.known s hs hid)
    · exact hids id hid
  allocated {id} hid := by
    rcases List.mem_append.1 (haside.allocated hid) with hid | hid
    · exact hpast (h.allocated hid)
    · exact hids id hid
  lens {id} hid seq hseq s' hs' n hlen := by
    obtain ⟨hseq, hout⟩ := hactive hseq
    obtain ⟨s, hs, hhost⟩ := haside.stages s' hs'
    rw [hhost.others hout] at hlen
    refine h.lens ?_ hseq s hs hlen
    exact (List.mem_append.1 (haside.allocated hid)).resolve_right hout

end Held

/-! ## Before the batch -/

variable {id : ℕ} {π : Type}

/-- No request comes back. -/
theorem Past.mono {st st' : DistributedState π} (hreceived : st'.received = st.received)
    (hpending : st'.pending ⊆ st.pending) (h : st.Past id) : st'.Past id :=
  ⟨hreceived ▸ h.1, fun hin => h.2 (List.map_subset _ hpending hin)⟩

theorem past_of_active {st : DistributedState π} (h : st.Sane) {seq : DistributedSequence}
    (hseq : st.active.lookup id = some seq) : st.Past id := by
  refine ⟨h.known hseq, fun hin => ?_⟩
  obtain ⟨req, hreq, rfl⟩ := List.mem_map.1 hin
  cases hseq.symm.trans (h.apart req hreq)

/-- Requests with ids of their own leave the past as it is. -/
theorem past_enqueue {st : DistributedState π} {reqs : List PendingRequest}
    (hnodup : ((st.received ++ reqs).map (·.seqId)).Nodup) (h : st.Past id) :
    (st.enqueue reqs).Past id := by
  rw [List.map_append, List.nodup_append] at hnodup
  refine ⟨?_, fun hin => ?_⟩
  · rw [enqueue, List.map_append]
    exact List.mem_append_left _ h.1
  · rw [enqueue, List.map_append, List.mem_append] at hin
    rcases hin with hin | hin
    · exact h.2 hin
    · exact hnodup.2.2 id h.1 id hin rfl

/-- What a loop that removes sequences releases. -/
theorem foldl_removeSeq_aside (event : DistributedSequence → GenerationEvent)
    {release : ℕ → Cluster R W → Cluster R W}
    (hrelease : ∀ {cl : Cluster R W} (id : ℕ), cl.Tidy → cl.Aside [id] (release id cl))
    (ids : List ℕ) (htidy : st.pipeline.Tidy)
    (hkeyed : ∀ {id seq}, st.active.lookup id = some seq → seq.seqId = id) :
    st.pipeline.Aside (ids.filter fun id => (st.active.lookup id).isSome)
      (ids.foldl (removeSeq event release) st).pipeline := by
  induction ids generalizing st with
  | nil => exact .refl htidy []
  | cons id ids ih =>
    rw [List.foldl_cons]
    cases hseq : st.active.lookup id with
    | none =>
      have hsame : removeSeq event release st id = st := by rw [removeSeq, hseq]
      rw [hsame, List.filter_cons_of_neg (by simp [hseq])]
      exact ih htidy hkeyed
    | some seq =>
      have hgone : removeSeq event release st id =
          { st with
            active := st.active.erase id
            events := st.events ++ [(id, event seq)]
            pipeline := release seq.seqId st.pipeline } := by rw [removeSeq, hseq]
      have hfirst := hrelease seq.seqId htidy
      rw [hkeyed hseq] at hfirst
      have htidy' : (removeSeq event release st id).pipeline.Tidy := by
        rw [hgone, hkeyed hseq]
        exact hfirst.tidy
      have hkeyed' : ∀ {id' seq'}, (removeSeq event release st id).active.lookup id' = some seq' →
          seq'.seqId = id' := by
        rw [hgone]
        exact fun hseq' => hkeyed (Assoc.lookup_erase_eq_some.1 hseq').2
      have hrest := ih htidy' hkeyed'
      rw [List.filter_cons_of_pos (by simp [hseq])]
      rw [hgone, hkeyed hseq] at hrest ⊢
      refine (hfirst.trans hrest).mono fun id' hid' => ?_
      rcases List.mem_append.1 hid' with hid' | hid'
      · exact List.mem_cons.2 (.inl (List.mem_singleton.1 hid'))
      · rw [List.mem_filter] at hid'
        refine .tail _ (List.mem_filter.2 ⟨hid'.1, ?_⟩)
        obtain ⟨seq', hseq'⟩ := Option.isSome_iff_exists.1 hid'.2
        rw [(Assoc.lookup_erase_eq_some.1 hseq').2]
        rfl

variable {t : DistributedTurn (Cluster R W) F} {net : Network}

theorem pipeline_foldl_removeSeq (event : DistributedSequence → GenerationEvent) (ids : List ℕ) :
    (ids.foldl (removeSeq event fun _ cl => cl) st).pipeline = st.pipeline := by
  induction ids generalizing st with
  | nil => rfl
  | cons id ids ih =>
    rw [List.foldl_cons, ih, removeSeq]
    split <;> rfl

/-- Nobody the pipeline had caches for runs any more. -/
theorem Held.abortAll (hops : t.ops = Cluster.ops b net) (h : st.Held) : (st.abortAll t).Held := by
  have haborted : t.ops.abortAllSequences st.pipeline = st.pipeline.abortAllSequences net := by
    rw [hops]
    rfl
  obtain ⟨hpending, hreceived, hlookup, -⟩ := foldl_removeSeq
    (fun _ => .error ("worker died: " ++ debugNames t.deadIds)) (fun _ cl => cl)
    (t.ops.abortAllSequences st.pipeline).1
    ({ st with pipeline := (t.ops.abortAllSequences st.pipeline).2 } : DistributedState _)
  have hpipeline : (st.abortAll t).pipeline = (st.pipeline.abortAllSequences net).2 := by
    rw [← haborted]
    exact pipeline_foldl_removeSeq _ _
  have hpast : ∀ {id}, st.Past id → (st.abortAll t).Past id := fun hid => by
    rw [Past, show (st.abortAll t).received = _ from hreceived,
      show (st.abortAll t).pending = _ from hpending]
    exact hid
  refine h.aside (hpipeline ▸ Cluster.abortAllSequences_aside net h.tidy) hpast
    (fun id hid => hpast (h.allocated hid)) fun {id seq} hseq => ?_
  have hseq' := (hlookup id).symm.trans hseq
  rw [haborted] at hseq'
  split at hseq'
  · cases hseq'
  · next hout => exact ⟨hseq', fun hid => hout ((net.order.perm _).mem_iff.2 hid)⟩

theorem pending_admitOne (cfg : DistributedLoopConfig) (t : DistributedTurn π F)
    (st : DistributedState π) : (st.admitOne cfg t).pending.Sublist st.pending := by
  unfold admitOne
  split
  · exact .refl _
  · next req pending hpending =>
    have htail : pending.Sublist st.pending := hpending ▸ List.sublist_cons_self ..
    split
    · split <;> exact htail
    · exact .refl _

/-- A request that is let in has empty caches. -/
theorem Held.admitOne (cfg : DistributedLoopConfig) (hops : t.ops = Cluster.ops b net)
    (hsane : st.Sane) (h : st.Held) : (st.admitOne cfg t).Held := by
  unfold DistributedState.admitOne
  split
  · exact h
  · next req pending hpending =>
    split
    · have halloc : t.ops.allocCache req.seqId st.pipeline =
          Cluster.allocCache net req.seqId st.pipeline := by
        rw [hops]
        rfl
      have haside := Cluster.allocCache_aside net h.tidy req.seqId
      have hin : req ∈ st.pending := hpending ▸ List.mem_cons_self
      have htail : ({ st with pending } : DistributedState (Cluster R W)).pending = pending := rfl
      obtain ⟨-, -, hother⟩ := hsane.ids_of_cons hpending htail
      -- the request leaves the waiting list either way
      have hpast : ∀ st' : DistributedState (Cluster R W), st'.received = st.received →
          st'.pending = pending → (∀ {id}, st.Past id → st'.Past id) ∧ st'.Past req.seqId := by
        intro st' hreceived hpending'
        refine ⟨.mono hreceived ?_, ?_, ?_⟩
        · rw [hpending', hpending]
          exact List.subset_cons_self ..
        · rw [hreceived]
          exact List.mem_map_of_mem (hsane.pending.subset hin)
        · rw [hpending']
          intro hmem
          obtain ⟨r, hr, hid⟩ := List.mem_map.1 hmem
          exact hother r hr hid
      have hidle : ∀ {id seq}, st.active.lookup id = some seq →
          st.active.lookup id = some seq ∧ id ∉ [req.seqId] := by
        refine fun {id seq} hseq => ⟨hseq, fun hid => ?_⟩
        rw [List.mem_singleton.1 hid, hsane.apart req hin] at hseq
        cases hseq
      have hheld : ∀ (cl : Cluster R W) (events : List (ℕ × GenerationEvent)),
          st.pipeline.Aside [req.seqId] cl →
          ({ st with pipeline := cl, pending, events } : DistributedState (Cluster R W)).Held := by
        intro cl events haside
        obtain ⟨hold, hnew⟩ := hpast { st with pipeline := cl, pending, events } rfl rfl
        refine h.aside haside hold (fun id hid => ?_) hidle
        rw [List.mem_singleton.1 hid]
        exact hnew
      rw [halloc]
      split
      · next cl hok =>
        rw [hok, state_ok] at haside
        refine (hheld cl st.events haside).enter rfl fun s' hs' n hlen => ?_
        obtain ⟨s, hs, hhost⟩ := haside.stages s' hs'
        rw [DistributedSequence.cached_activate]
        refine (hhost.same hlen).resolve_right fun hlen => ?_
        exact (h.known s hs (HostedCache.mem_of_lenFor hlen)).2 (List.mem_map_of_mem hin)
      · next e cl herr =>
        rw [herr, state_error] at haside
        exact hheld cl _ haside
    · exact h

/-! ## The batch -/

/-- Sampling adds no sequences, and changes no ids. -/
theorem lookup_of_sampleAll {st : DistributedState π} {t : DistributedTurn π F}
    {jobs : List DistributedJob} (hjobs : st.Runnable jobs) {logits : List (List F)}
    (hlen : logits.length = jobs.length) {after : DistributedSequence}
    (hafter : (sampleAll t (sampleTasks (.ofJobs jobs) logits)
      ⟨st.active, st.events, [], []⟩).active.lookup id = some after) :
    ∃ seq, st.active.lookup id = some seq ∧ after.seqId = seq.seqId := by
  obtain ⟨htasks, hrows⟩ := sampleTasks_ofJobs jobs hlen
  have hview : ∀ {seq}, st.active.lookup id = seq → View ⟨st.active, st.events, [], []⟩ id seq _ []
    False := fun hseq => ⟨hseq, rfl, rfl, by simp⟩
  by_cases hjob : id ∈ jobs.map (·.seqId)
  · obtain ⟨job, hmem, rfl⟩ := List.mem_map.1 hjob
    obtain ⟨seq, hseq, hjobFor⟩ := hjobs.each job hmem
    obtain ⟨row, hrow⟩ := hrows job hmem
    obtain ⟨_, _, _, _, hsamples, hdrew⟩ :=
      (hview hseq).sampleAll_of_mem hjobFor (htasks ▸ hjobs.ids) hrow
    cases hdrew.entry.symm.trans hafter
    exact ⟨seq, hseq, hsamples.seqId⟩
  · exact ⟨after, ((hview rfl).sampleAll_of_notMem (htasks ▸ hjob)).entry.symm.trans hafter, rfl⟩

end DistributedState

/-- Before the batch every worker had the rows at which the positions of
each job start. -/
def DistributedLog.Lined (log : DistributedLog (Cluster R W) F) : Prop :=
  ∀ job ∈ log.batch.jobs, ∀ s ∈ log.before.stages, ∃ n, s.host.lenFor job.seqId = some n ∧
    job.positions = (List.range' n job.tokens.length).map asU32

namespace DistributedState

variable {st : DistributedState (Cluster R W)} {t : DistributedTurn (Cluster R W) F} {net : Network}
  {jobs : List DistributedJob} {cl : Cluster R W} {flat : List F}

/-- Jobs of a batch that came through start where the caches end. -/
theorem Held.lined (hb : b.Sound) (h : st.Held) (hjobs : st.Runnable jobs)
    (hok : Cluster.batchedForward b net (fun _ => none) (jobs.map (·.wire))
      (jobs.flatMap (·.tokens)) st.pipeline = .ok flat cl) :
    ∀ job ∈ jobs, ∃ seq, st.active.lookup job.seqId = some seq ∧ seq.JobFor job ∧
      job.positions.length = job.tokens.length ∧
      ∀ s ∈ st.pipeline.stages, s.host.lenFor job.seqId = some seq.cached := by
  obtain ⟨hallocated, -, hstages⟩ := Cluster.batchedForward_lengthens hb h.tidy hjobs.ids hok
  have hrows := Cluster.length_positions_of_ok (fun _ _ => rfl)
    (Cluster.batchedForward_eq_ok hok).2.1 fun job hjob => by
      obtain ⟨seq, -, hjobFor⟩ := hjobs.each job hjob
      exact hjobFor.length_positions_le
  intro job hjob
  obtain ⟨seq, hseq, hjobFor⟩ := hjobs.each job hjob
  refine ⟨seq, hseq, hjobFor, hrows job hjob, fun s hs => ?_⟩
  obtain ⟨s', -, hlong⟩ := Rows.exists_right hstages hs
  obtain ⟨n, hn, -⟩ := hlong.each job hjob
  rw [hn, h.lens (hallocated job hjob) hseq s hs hn]

section

variable (hb : b.Sound) (hops : t.ops = Cluster.ops b net) (hsane : st.Sane) (h : st.Held)
  (hjobs : st.Runnable jobs)
include hb hops hsane h hjobs

/-- **A batch that came through keeps positions and caches together.** -/
theorem Held.conclude
    (hok : Cluster.batchedForward b net (fun _ => none) (jobs.map (·.wire))
      (jobs.flatMap (·.tokens)) st.pipeline = .ok flat cl)
    {logits : List (List F)} (hlen : logits.length = jobs.length) :
    (DistributedState.conclude t { st with pipeline := cl } (.ofJobs jobs) logits).2.Held := by
  obtain ⟨-, hallocated, hstages⟩ := Cluster.batchedForward_lengthens hb h.tidy hjobs.ids hok
  have hfree : (fun seqId cl => state (t.ops.freeCache seqId cl)) =
      fun seqId cl => state (Cluster.freeCache net seqId cl) := by
    rw [hops]
    rfl
  set drawn := sampleAll t (sampleTasks (.ofJobs jobs) logits) ⟨st.active, st.events, [], []⟩
    with hdrawn
  set st₁ : DistributedState (Cluster R W) :=
    { st with pipeline := cl, active := drawn.active, events := drawn.events } with hst₁
  set st' := (DistributedState.conclude t { st with pipeline := cl } (.ofJobs jobs) logits).2
    with hst'
  have hfold : st' = drawn.completed.foldl (removeSeq (fun seq => seq.farewell)
      fun seqId cl => state (Cluster.freeCache net seqId cl)) st₁ := by
    rw [← hfree]
    rfl
  -- the caches have the rows of the batch, and those of some sequences are freed
  have hmid : ({ st with pipeline := cl, active := st'.active } : DistributedState _).Held := by
    refine ⟨fun s' hs' => ?_, fun s' hs' id hid => ?_, fun hid => h.allocated (hallocated ▸ hid),
      fun {id} hid after hafter s' hs' n hn => ?_⟩
    all_goals obtain ⟨s, hs, hlong⟩ := Rows.exists_left hstages hs'
    · exact hlong.tidy
    · exact h.known s hs (hlong.handles ▸ hid)
    by_cases hjob : id ∈ jobs.map (·.seqId)
    · obtain ⟨job, hmem, rfl⟩ := List.mem_map.1 hjob
      obtain ⟨seq, hseq, hjobFor, hrows, hcached⟩ := h.lined hb hjobs hok job hmem
      obtain ⟨m, hm, hm'⟩ := hlong.each job hmem
      rw [hcached s hs] at hm
      cases hm
      obtain ⟨after', sent, drew, through, hsamples, -, ⟨-, hgone, -⟩ | ⟨hgoing, hafter', -⟩⟩ :=
        conclude_of_mem hlen (Prod.ext rfl hst'.symm) hjobs.ids hmem hseq hjobFor
      · cases hgone.symm.trans hafter
      · cases hafter'.symm.trans hafter
        cases hn.symm.trans hm'
        rw [hsamples.cached_eq hgoing, hrows]
    · obtain ⟨hsame, -, -⟩ := conclude_of_notMem hlen (Prod.ext rfl hst'.symm) hjob
      rw [hlong.others hjob] at hn
      exact h.lens (hallocated ▸ hid) (hsame.symm.trans hafter) s hs hn
  have hrunning : ∀ {id after}, st₁.active.lookup id = some after →
      ∃ seq, st.active.lookup id = some seq ∧ after.seqId = seq.seqId :=
    lookup_of_sampleAll hjobs hlen
  have haside := foldl_removeSeq_aside (fun seq => seq.farewell)
    (fun id htidy => Cluster.freeCache_aside net htidy id) drawn.completed
    (show st₁.pipeline.Tidy from hmid.tidy) (fun hafter => by
      obtain ⟨seq, hseq, hid⟩ := hrunning hafter
      exact hid.trans (hsane.keyed hseq))
  obtain ⟨hpending, hreceived, hlookup, -⟩ := foldl_removeSeq (fun seq => seq.farewell)
    (fun seqId cl => state (Cluster.freeCache net seqId cl)) drawn.completed st₁
  rw [← hfold] at haside hpending hreceived hlookup
  have hpast : ∀ {id}, st.Past id → st'.Past id := fun hid => by
    rw [Past, hreceived, hpending]
    exact hid
  refine hmid.aside haside hpast (fun id hid => ?_) fun hafter => ⟨hafter, fun hin => ?_⟩
  · obtain ⟨after, hafter⟩ := Option.isSome_iff_exists.1 (List.mem_filter.1 hid).2
    obtain ⟨seq, hseq, -⟩ := hrunning hafter
    exact hpast (past_of_active hsane hseq)
  · rw [hlookup, if_pos (List.mem_of_mem_filter hin)] at hafter
    cases hafter

/-- A batch that came through, with its log. -/
theorem Held.runBatch (hok : (DistributedState.runBatch t st (.ofJobs jobs)).1.result.isOk = true) :
    (DistributedState.runBatch t st (.ofJobs jobs)).2.Held ∧
      ∀ l ∈ some (DistributedState.runBatch t st (.ofJobs jobs)).1, l.Lined := by
  have hforward : t.ops.batchedForward (DistributedBatch.ofJobs jobs).metas
      (DistributedBatch.ofJobs jobs).allTokenIds ((DistributedBatch.ofJobs jobs).isPrefill.any id)
      st.pipeline = Cluster.batchedForward b net (fun _ => none) (jobs.map (·.wire))
        (jobs.flatMap (·.tokens)) st.pipeline := by
    rw [hops]
    rfl
  unfold DistributedState.runBatch at hok ⊢
  rw [hforward] at hok ⊢
  split at hok
  · cases hok
  · next flat cl hrun =>
    have hlen := DistributedBatch.length_splitLogits flat jobs
    refine ⟨h.conclude hb hops hsane hjobs hrun hlen, ?_⟩
    rintro l ⟨⟩ job hjob s hs
    rw [DistributedBatch.jobs_ofJobs] at hjob
    obtain ⟨seq, hseq, hjobFor, hrows, hcached⟩ := h.lined hb hjobs hrun job hjob
    exact ⟨seq.cached, hcached s hs, hjobFor.positions_eq hrows⟩

end

/-- Every phase of a turn keeps positions and caches together, and so does a
batch that comes through. -/
theorem keeps_held (hb : b.Sound) (cfg : DistributedLoopConfig) (hops : t.ops = Cluster.ops b net)
    {st₀ : DistributedState (Cluster R W)} (hoffers : ∀ cl ∈ t.offers, cl.Offered st₀.Past) :
    Keeps cfg t (fun st => st.Sane ∧ st.Held ∧ ∀ {id}, st₀.Past id → st.Past id)
      fun log st => (∀ l ∈ log, l.result.isOk = true) → st.Held ∧ ∀ l ∈ log, l.Lined where
  switch := by
    rintro st cl hmem ⟨hsane, -, hpast⟩
    refine ⟨hsane.shrink (.refl _) rfl fun hseq => ⟨_, hseq, rfl⟩, .offered ?_, hpast⟩
    exact ⟨(hoffers cl hmem).tidy, fun s hs _ hid => hpast ((hoffers cl hmem).known s hs hid),
      (hoffers cl hmem).idle⟩
  flags := by
    rintro st degraded stopped ⟨hsane, hheld, hpast⟩
    exact ⟨hsane.shrink (.refl _) rfl fun hseq => ⟨_, hseq, rfl⟩,
      hheld.shrink rfl (fun hid => hid) (fun hseq => hseq), hpast⟩
  enqueue := by
    rintro st reqs hnodup hmem ⟨hsane, hheld, hpast⟩
    exact ⟨(enqueue_passes hnodup hmem hsane).1, hheld.shrink rfl (past_enqueue hnodup)
      (fun hseq => hseq), fun hid => past_enqueue hnodup (hpast hid)⟩
  abort := by
    rintro st ⟨hsane, hheld, hpast⟩
    have hpending : (st.abortAll t).pending = st.pending := (foldl_removeSeq ..).1
    exact ⟨(abortAll_passes t st hsane).1, hheld.abortAll hops,
      fun hid => (hpast hid).mono (between_abortAll t st).1 (hpending ▸ List.Subset.refl _)⟩
  reject := by
    rintro st message ⟨hsane, hheld, hpast⟩
    have hpast' : ∀ {id}, st.Past id → (st.rejectPending message).Past id := fun hid =>
      ⟨hid.1, List.not_mem_nil⟩
    exact ⟨(rejectPending_passes t message st hsane).1,
      hheld.shrink rfl hpast' (fun hseq => hseq), fun hid => hpast' (hpast hid)⟩
  admitOne := by
    rintro st ⟨hsane, hheld, hpast⟩
    exact ⟨(admitOne_passes t cfg hsane).1, hheld.admitOne cfg hops hsane,
      fun hid => (hpast hid).mono (between_admitOne cfg t st).1 (pending_admitOne cfg t st).subset⟩
  idle := by
    rintro st ⟨-, hheld, -⟩ -
    exact ⟨hheld, fun l hl => by cases hl⟩
  batch := by
    rintro st ⟨hsane, hheld, -⟩ hok
    obtain ⟨jobs, hbuild, hrunnable⟩ := runnable_build hsane.keyed cfg t.order
    rw [hbuild] at hok ⊢
    exact hheld.runBatch hb hops hsane hrunnable (hok _ rfl)

end DistributedState

/-- **Positions follow the caches, and the jobs follow the prompt and the
tokens drawn.** In every run of the loop over workers, with requests of
their own ids and pipelines that start without caches for requests to
come, in which every batch comes through: before each batch every worker
has, for each sequence in it, as many rows as the position the job starts
at; the chunks of a prompt make up the prompt; and each decode carries the
token drawn for it at the position behind all others. -/
theorem positions_follow (hb : b.Sound) (cfg : DistributedLoopConfig) {cl : Cluster R W}
    (hcl : cl.Offered fun _ => False) {turns : List (DistributedTurn (Cluster R W) F)}
    (hops : ∀ t ∈ turns, ∃ net, t.ops = Cluster.ops b net)
    (hids : ((turns.flatMap (·.arrivals)).map (·.seqId)).Nodup)
    (hoffers : Throughout (DistributedTrace.next cfg)
      (fun tr t => ∀ cl ∈ t.offers, cl.Offered tr.state.Past) (.start cl) turns)
    (hok : ∀ log ∈ (DistributedTrace.serve cfg cl turns).logs, log.result.isOk = true) :
    (∀ log ∈ (DistributedTrace.serve cfg cl turns).logs, log.Lined) ∧
      ∀ req ∈ turns.flatMap (·.arrivals),
        Streams req.promptTokens ((DistributedTrace.serve cfg cl turns).jobsOf req.seqId)
          ((DistributedTrace.serve cfg cl turns).drawnOf req.seqId) := by
  refine ⟨?_, fun req hreq => DistributedTrace.streams cfg cl hids hreq⟩
  have hstart := DistributedTrace.sane_start (F := F) cl
  have hturns := ((DistributedTrace.throughout_fresh cfg hstart hids).and hoffers).and
    (throughout_of_forall hops)
  have hrun := hturns.invariant (fun tr => tr.state.Sane ∧
    ((∀ log ∈ tr.logs, log.result.isOk = true) → tr.state.Held ∧ ∀ log ∈ tr.logs, log.Lined))
    ⟨hstart, fun _ => ⟨.offered ⟨hcl.tidy, fun s hs _ hid => (hcl.known s hs hid).elim, hcl.idle⟩,
      fun log hlog => by cases hlog⟩⟩ ?_
  · exact (hrun.2 hok).2
  · rintro tr t ⟨hsane, hheld⟩ ⟨⟨hfresh, hoffers⟩, net, hops⟩
    refine ⟨(DistributedTrace.next_moves cfg hsane hfresh).1, fun hok => ?_⟩
    have hlogs : (tr.next cfg t).logs = tr.logs ++ (tr.state.turn cfg t).1.toList := rfl
    rw [hlogs, List.forall_mem_append] at hok ⊢
    obtain ⟨hheld, hlined⟩ := hheld hok.1
    obtain ⟨hturn, -⟩ := (DistributedState.keeps_held hb cfg hops hoffers).turn hfresh
      ⟨hsane, hheld, fun hid => hid⟩
    obtain ⟨hheld', hlined'⟩ := hturn fun l hl => hok.2 l (Option.mem_toList.2 hl)
    exact ⟨hheld', hlined, fun log hlog => hlined' log (Option.mem_toList.1 hlog)⟩

/-- Workers that start out empty. -/
theorem Cluster.offered_of_fresh {past : ℕ → Prop} {cl : Cluster R W}
    (hfresh : ∀ s ∈ cl.stages, ∃ k, s.host.Fresh k) (hidle : cl.allocatedSeqs = []) :
    cl.Offered past := by
  refine ⟨fun s hs => ?_, fun s hs id hid => ?_, hidle⟩
  · obtain ⟨k, hfitting, -, hempty⟩ := hfresh s hs
    refine ⟨hfitting.toAccounted, fun hlook => ?_, fun hlook => ?_⟩
    · rw [hempty] at hlook
      cases hlook
    · rw [hempty] at hlook
      cases hlook
  · obtain ⟨k, -, -, hempty⟩ := hfresh s hs
    rw [hempty] at hid
    cases hid

/-- A quiet turn over the two workers. -/
def DistributedTurn.clear (submitted : List PendingRequest) (token : ℕ) :
    DistributedTurn (Cluster ℕ ℕ) ℕ :=
  { reconfigured := none, submitted, disconnected := false, deadIds := [], recovered := none,
    needsRebalance := false, rebalanced := none, wakeup := .timer, freeBlocks := 0,
    ops := Cluster.ops referenceBackend .clear, order := .stored, sample := fun _ _ _ => .ok token }

/-- A prompt in two chunks beside another one, and two decodes. -/
def chunkedRun : List (DistributedTurn (Cluster ℕ ℕ) ℕ) :=
  [.clear [.greedy 7 [5, 6, 4] 3, .greedy 9 [8] 1] 3, .clear [] 3, .clear [] 2, .clear [] 1]

theorem positions_follow_chunkedRun :
    ((DistributedTrace.serve ⟨4, 4, 2, 0, false⟩ (twoWorkers []) chunkedRun).jobsOf 7).map
        (fun job => (job.tokens, job.positions)) =
      [([5, 6], [0, 1]), ([4], [2]), ([3], [3]), ([2], [4])] ∧
    (∀ log ∈ (DistributedTrace.serve ⟨4, 4, 2, 0, false⟩ (twoWorkers []) chunkedRun).logs,
      log.Lined) := by
  have hfresh : (twoWorkers []).Offered fun _ => False := by
    refine Cluster.offered_of_fresh (fun s hs => ⟨1, ?_⟩) rfl
    rcases List.mem_pair.1 hs with rfl | rfl <;> exact emptyHost_fresh 1
  have hquiet : ∀ t ∈ chunkedRun, t.offers = [] ∧ ∃ net, t.ops = Cluster.ops referenceBackend net := by
    intro t ht
    simp only [chunkedRun, List.mem_cons, List.not_mem_nil, or_false] at ht
    rcases ht with rfl | rfl | rfl | rfl <;> exact ⟨rfl, .clear, rfl⟩
  have hturns : Throughout (DistributedTrace.next ⟨4, 4, 2, 0, false⟩) (fun _ t => t.offers = [])
      (.start (twoWorkers [])) chunkedRun := throughout_of_forall fun t ht => (hquiet t ht).1
  have hoffers := hturns.imp (Q := fun tr t => ∀ cl ∈ t.offers, cl.Offered tr.state.Past)
    (fun _ => True) trivial (fun _ _ => trivial) fun {tr t} _ hnone cl hcl => by
      rw [hnone] at hcl
      cases hcl
  refine ⟨by decide +kernel, (positions_follow referenceBackend_reliable.toSound _ hfresh
    (fun t ht => (hquiet t ht).2) (by decide) hoffers ?_).1⟩
  decide +kernel

end Fracture
