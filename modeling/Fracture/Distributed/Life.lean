import Fracture.Distributed.Packing
import Fracture.Distributed.Phases
import Fracture.Scheduler.Turn
import Mathlib.Logic.Relation

/-!
# The life of a request

What the distributed loop is to one request: it arrives, waits, is
refused or let in, gets jobs and draws tokens, and is over. `Life.Move`
are the moves of such a life. The loop handles many requests in each
turn, but with ids of their own they do not meet: seen from one id, every
phase of the loop is some moves of that id's life, or none.
-/

namespace Fracture

open Effect

variable {π F : Type}

/-! ## Moves -/

inductive LifeStatus
  /-- Not received. -/
  | unborn
  | waiting (req : PendingRequest)
  | running (seq : DistributedSequence)
  | over

/-- Where a request stands, and what there was of it so far. -/
structure Life where
  status : LifeStatus
  events : List GenerationEvent
  jobs : List DistributedJob
  drawn : List ℕ

namespace DistributedSequence

/-- The token just drawn is the last one. -/
def through (seq : DistributedSequence) (token : ℕ) : Bool :=
  token ∈ seq.stopTokens || seq.generatedTokens.length ≥ seq.maxTokens

/-- The last event of a sequence that is through. -/
def farewell (seq : DistributedSequence) : GenerationEvent :=
  .finished seq.stopReason seq.generatedTokens.length

/-- What is sent for a token just drawn. -/
def reply (seq : DistributedSequence) (token : ℕ) : List GenerationEvent :=
  (if token ∈ seq.stopTokens then [] else [.token token]) ++
    if seq.through token then [seq.farewell] else []

/-- A job that ends in a draw, whether it was for a prompt, and the
sequence that is drawn for. -/
inductive Ready (seq : DistributedSequence) : DistributedJob → Bool → DistributedSequence → Prop
  | prompt (hopen : seq.prefillDone = false) (hleft : seq.remainingPrefill ≠ []) :
    Ready seq (seq.prefillJob seq.remainingPrefill.length) true
      (seq.advance seq.remainingPrefill.length)
  | decode (hdone : seq.prefillDone = true) : Ready seq seq.decodeJob false seq

end DistributedSequence

/-- A move in the life of the request `id`. -/
inductive Life.Move (t : DistributedTurn π F) (id : ℕ) : Life → Life → Prop
  | arrive {l req} (hstatus : l.status = .unborn) (hmem : req ∈ t.arrivals) (hid : req.seqId = id) :
    Move t id l { l with status := .waiting req }
  | refuse {l req} (hstatus : l.status = .waiting req) (message : String) :
    Move t id l { l with status := .over, events := l.events ++ [.error message] }
  | enter {l req} (hstatus : l.status = .waiting req) :
    Move t id l { l with status := .running (DistributedState.activate req) }
  | abort {l seq} (hstatus : l.status = .running seq) (message : String) :
    Move t id l { l with status := .over, events := l.events ++ [.error message] }
  /-- The batch failed. -/
  | lose {l seq job} (hstatus : l.status = .running seq) (hjob : seq.JobFor job)
    (message : String) :
    Move t id l { l with
      status := .over, events := l.events ++ [.error message], jobs := l.jobs ++ [job] }
  /-- More of the prompt is to come. -/
  | chunk {l seq n} (hstatus : l.status = .running seq) (hopen : seq.prefillDone = false)
    (hlt : n < seq.remainingPrefill.length) :
    Move t id l { l with status := .running (seq.advance n), jobs := l.jobs ++ [seq.prefillJob n] }
  | draw {l seq job isPrefill seq' logits token} (hstatus : l.status = .running seq)
    (hready : seq.Ready job isPrefill seq') (hok : t.sample id logits seq.params = .ok token) :
    Move t id l
      { status := if (seq'.pushToken isPrefill token).through token then .over
          else .running (seq'.pushToken isPrefill token)
        events := l.events ++ (seq'.pushToken isPrefill token).reply token
        jobs := l.jobs ++ [job]
        drawn := l.drawn ++ [token] }
  /-- No token could be drawn. -/
  | botch {l seq job isPrefill seq' logits e} (hstatus : l.status = .running seq)
    (hready : seq.Ready job isPrefill seq') (herr : t.sample id logits seq.params = .error e)
    (message : String) :
    Move t id l { l with
      status := .over
      events := l.events ++ [.error message, seq'.farewell]
      jobs := l.jobs ++ [job] }

/-- Moves of one turn. -/
def Life.Moves (t : DistributedTurn π F) (id : ℕ) : Life → Life → Prop :=
  Relation.ReflTransGen (Life.Move t id)

/-! ## The loop, seen from one request -/

theorem eventsOf_self (id : ℕ) (e : GenerationEvent) : eventsOf id [(id, e)] = [e] := by
  rw [eventsOf_singleton, if_pos rfl]

theorem eventsOf_of_ne {id id' : ℕ} (h : id' ≠ id) (e : GenerationEvent) :
    eventsOf id [(id', e)] = [] := by
  rw [eventsOf_singleton, if_neg h]

namespace DistributedState

/-- Where a request stands. -/
def statusOf (st : DistributedState π) (id : ℕ) : LifeStatus :=
  match st.active.lookup id, st.pending.find? (·.seqId = id) with
  | some seq, _ => .running seq
  | none, some req => .waiting req
  | none, none => if id ∈ st.received.map (·.seqId) then .over else .unborn

/-- The life of a request, up to now. -/
def lifeOf (st : DistributedState π) (jobs : List DistributedJob) (drawn : List ℕ) (id : ℕ) : Life :=
  { status := st.statusOf id, events := eventsOf id st.events, jobs, drawn }

/-- Every id is that of one request, which is waiting, running or over. -/
structure Sane (st : DistributedState π) : Prop where
  keyed : ∀ {id seq}, st.active.lookup id = some seq → seq.seqId = id
  received : (st.received.map (·.seqId)).Nodup
  pending : st.pending.Sublist st.received
  apart : ∀ req ∈ st.pending, st.active.lookup req.seqId = none
  known : ∀ {id seq}, st.active.lookup id = some seq → id ∈ st.received.map (·.seqId)

/-- A part of a turn, seen from every request. -/
def Passes (t : DistributedTurn π F) (st st' : DistributedState π) : Prop :=
  st.Sane → st'.Sane ∧
    ∀ id jobs drawn, Life.Moves t id (st.lifeOf jobs drawn id) (st'.lifeOf jobs drawn id)

variable {t : DistributedTurn π F} {st st' st'' : DistributedState π} {id : ℕ}
  {seq : DistributedSequence}

theorem statusOf_of_running (h : st.active.lookup id = some seq) :
    st.statusOf id = .running seq := by
  rw [statusOf, h]

variable {req : PendingRequest}

theorem statusOf_of_none (hseq : st.active.lookup id = none)
    (hfind : st.pending.find? (·.seqId = id) = none) :
    st.statusOf id = if id ∈ st.received.map (·.seqId) then .over else .unborn := by
  rw [statusOf, hseq, hfind]

theorem Sane.find_pending (h : st.Sane) (hmem : req ∈ st.pending) :
    st.pending.find? (·.seqId = req.seqId) = some req := by
  cases hfind : st.pending.find? (·.seqId = req.seqId) with
  | none => simpa using List.find?_eq_none.1 hfind req hmem
  | some req' =>
    have hids := (h.pending.map (·.seqId)).nodup h.received
    have hsame : req'.seqId = req.seqId := by simpa using List.find?_some hfind
    rw [List.inj_on_of_nodup_map hids (List.mem_of_find?_eq_some hfind) hmem hsame]

theorem Sane.statusOf_of_waiting (h : st.Sane) (hmem : req ∈ st.pending) :
    st.statusOf req.seqId = .waiting req := by
  rw [statusOf, h.apart req hmem, h.find_pending hmem]

/-- A running sequence is not waiting as well. -/
theorem Sane.find_of_running (h : st.Sane) (hseq : st.active.lookup id = some seq) :
    st.pending.find? (·.seqId = id) = none := by
  rw [List.find?_eq_none]
  intro req hreq heq
  have hnone := h.apart req hreq
  rw [of_decide_eq_true heq, hseq] at hnone
  cases hnone

/-- Requests and sequences may go, and sequences move on. -/
theorem Sane.shrink (h : st.Sane) (hpending : st'.pending.Sublist st.pending)
    (hreceived : st'.received = st.received)
    (hactive : ∀ {id seq'}, st'.active.lookup id = some seq' →
      ∃ seq, st.active.lookup id = some seq ∧ seq'.seqId = seq.seqId) :
    st'.Sane where
  keyed hseq' := by
    obtain ⟨seq, hseq, hid⟩ := hactive hseq'
    exact hid.trans (h.keyed hseq)
  received := hreceived ▸ h.received
  pending := hreceived ▸ hpending.trans h.pending
  apart req hreq := by
    have hnone := h.apart req (hpending.subset hreq)
    cases hseq' : st'.active.lookup req.seqId with
    | none => rfl
    | some seq' =>
      obtain ⟨seq, hseq, -⟩ := hactive hseq'
      cases hnone.symm.trans hseq
  known hseq' := by
    obtain ⟨seq, hseq, -⟩ := hactive hseq'
    exact hreceived ▸ h.known hseq

/-- Nothing happens to a request whose entries are the same. -/
theorem lifeOf_congr (hpending : st'.pending = st.pending) (hreceived : st'.received = st.received)
    (hlookup : st'.active.lookup id = st.active.lookup id)
    (hevents : eventsOf id st'.events = eventsOf id st.events) (jobs : List DistributedJob)
    (drawn : List ℕ) : st'.lifeOf jobs drawn id = st.lifeOf jobs drawn id := by
  rw [lifeOf, lifeOf, statusOf, statusOf, hpending, hreceived, hlookup, hevents]

namespace Passes

theorem refl (t : DistributedTurn π F) (st : DistributedState π) : Passes t st st :=
  fun h => ⟨h, fun _ _ _ => .refl⟩

theorem trans (h : Passes t st st') (h' : Passes t st' st'') : Passes t st st'' := by
  intro hsane
  obtain ⟨hsane', hmoves⟩ := h hsane
  obtain ⟨hsane'', hmoves'⟩ := h' hsane'
  exact ⟨hsane'', fun id jobs drawn => (hmoves id jobs drawn).trans (hmoves' id jobs drawn)⟩

/-- A change of the pipeline alone. -/
theorem of_same (hpending : st'.pending = st.pending) (hactive : st'.active = st.active)
    (hreceived : st'.received = st.received) (hevents : st'.events = st.events) :
    Passes t st st' := by
  refine fun h => ⟨h.shrink (by rw [hpending]) hreceived fun hseq => ⟨_, hactive ▸ hseq, rfl⟩,
    fun id jobs drawn => ?_⟩
  rw [lifeOf_congr hpending hreceived (by rw [hactive]) (by rw [hevents])]
  exact .refl

end Passes

/-! ## Before the batch -/

/-- A request with an id of its own arrives. -/
theorem enqueueOne_passes (hnew : req.seqId ∉ st.received.map (·.seqId))
    (hmem : req ∈ t.arrivals) : Passes t st (st.enqueue [req]) := by
  intro h
  have hidle : st.active.lookup req.seqId = none := by
    cases hseq : st.active.lookup req.seqId with
    | none => rfl
    | some seq => exact absurd (h.known hseq) hnew
  refine ⟨⟨h.keyed, ?_, h.pending.append (.refl _), ?_, ?_⟩, fun id jobs drawn => ?_⟩
  · rw [enqueue, List.map_append]
    exact h.received.append (List.nodup_singleton _) (by simpa using hnew)
  · exact List.forall_mem_append.2 ⟨h.apart, List.forall_mem_singleton.2 hidle⟩
  · intro id seq hseq
    rw [enqueue, List.map_append]
    exact List.mem_append_left _ (h.known hseq)
  · by_cases hid : id = req.seqId
    · subst hid
      have hfind : st.pending.find? (·.seqId = req.seqId) = none :=
        List.find?_eq_none.2 fun req' hreq' heq => hnew
          (List.mem_map.2 ⟨req', h.pending.subset hreq', by simpa using heq⟩)
      have hunborn : st.statusOf req.seqId = .unborn := by
        rw [statusOf_of_none hidle hfind, if_neg hnew]
      have hwaiting : (st.enqueue [req]).statusOf req.seqId = .waiting req := by
        simp [statusOf, enqueue, hidle, hfind]
      rw [lifeOf, lifeOf, hwaiting]
      exact .single (.arrive hunborn hmem rfl)
    · have hstatus : (st.enqueue [req]).statusOf id = st.statusOf id := by
        simp [statusOf, enqueue, hid, Ne.symm hid]
      rw [lifeOf, lifeOf, hstatus]
      exact .refl

/-- Requests with ids of their own arrive. -/
theorem enqueue_passes {reqs : List PendingRequest}
    (hfresh : ((st.received ++ reqs).map (·.seqId)).Nodup) (hmem : ∀ req ∈ reqs, req ∈ t.arrivals) :
    Passes t st (st.enqueue reqs) := by
  induction reqs generalizing st with
  | nil => exact .of_same (List.append_nil _) rfl (List.append_nil _) rfl
  | cons req reqs ih =>
    have hnew : req.seqId ∉ st.received.map (·.seqId) := by
      rw [List.map_append, List.nodup_append] at hfresh
      exact fun hold => hfresh.2.2 _ hold _ List.mem_cons_self rfl
    have hfirst : Passes t st (st.enqueue [req]) := enqueueOne_passes hnew (hmem req (.head _))
    have hrest := hfirst.trans (ih (by simpa [enqueue] using hfresh)
      fun req hreq => hmem req (.tail _ hreq))
    simpa [enqueue] using hrest

/-- What a loop that removes sequences does to each of them. -/
theorem foldl_removeSeq (event : DistributedSequence → GenerationEvent) (release : ℕ → π → π)
    (ids : List ℕ) (st : DistributedState π) :
    (ids.foldl (removeSeq event release) st).pending = st.pending ∧
    (ids.foldl (removeSeq event release) st).received = st.received ∧
    (∀ id, (ids.foldl (removeSeq event release) st).active.lookup id =
      if id ∈ ids then none else st.active.lookup id) ∧
    ∀ id, eventsOf id (ids.foldl (removeSeq event release) st).events =
      eventsOf id st.events ++ if id ∈ ids then ((st.active.lookup id).map event).toList else [] := by
  induction ids generalizing st with
  | nil => simp
  | cons seqId ids ih =>
    obtain ⟨hpending, hreceived, hlookup, hevents⟩ := ih (removeSeq event release st seqId)
    rw [List.foldl_cons]
    cases hseq : st.active.lookup seqId with
    | none =>
      have hsame : removeSeq event release st seqId = st := by rw [removeSeq, hseq]
      rw [hsame] at hpending hreceived hlookup hevents ⊢
      refine ⟨hpending, hreceived, fun id => ?_, fun id => ?_⟩
      · rw [hlookup]
        by_cases hid : id = seqId
        · subst hid
          simp [hseq]
        · simp [hid]
      · rw [hevents]
        by_cases hid : id = seqId
        · subst hid
          simp [hseq]
        · simp [hid]
    | some seq =>
      have hgone : removeSeq event release st seqId =
          { st with
            active := st.active.erase seqId
            events := st.events ++ [(seqId, event seq)]
            pipeline := release seq.seqId st.pipeline } := by rw [removeSeq, hseq]
      rw [hgone] at hpending hreceived hlookup hevents ⊢
      refine ⟨hpending, hreceived, fun id => ?_, fun id => ?_⟩
      · rw [hlookup]
        by_cases hid : id = seqId
        · subst hid
          simp [AList.lookup_erase]
        · simp [hid, AList.lookup_erase_ne]
      · rw [hevents, eventsOf_append]
        by_cases hid : id = seqId
        · subst hid
          simp [AList.lookup_erase, hseq, eventsOf_self]
        · simp [hid, AList.lookup_erase_ne, eventsOf_of_ne (Ne.symm hid)]

/-- A running sequence that is removed is over. -/
theorem Sane.statusOf_of_removed (h : st.Sane) (hseq : st.active.lookup id = some seq)
    (hpending : st'.pending = st.pending) (hreceived : st'.received = st.received)
    (hgone : st'.active.lookup id = none) : st'.statusOf id = .over := by
  rw [statusOf, hgone, hpending, h.find_of_running hseq, hreceived]
  exact if_pos (h.known hseq)

/-- Sequences are aborted. -/
theorem foldl_abort_passes (message : String) (release : ℕ → π → π) (ids : List ℕ)
    (st : DistributedState π) :
    Passes t st (ids.foldl (removeSeq (fun _ => .error message) release) st) := by
  intro h
  obtain ⟨hpending, hreceived, hlookup, hevents⟩ :=
    foldl_removeSeq (fun _ => .error message) release ids st
  refine ⟨h.shrink (by rw [hpending]) hreceived fun {id seq} hseq => ?_, fun id jobs drawn => ?_⟩
  · rw [hlookup] at hseq
    split at hseq
    · cases hseq
    · exact ⟨seq, hseq, rfl⟩
  · by_cases hid : id ∈ ids
    · have hlookup' := hlookup id
      have hevents' := hevents id
      rw [if_pos hid] at hlookup' hevents'
      cases hseq : st.active.lookup id with
      | none =>
        rw [hseq, Option.map_none, Option.toList_none, List.append_nil] at hevents'
        rw [lifeOf_congr hpending hreceived (hlookup'.trans hseq.symm) hevents']
        exact .refl
      | some seq =>
        rw [hseq] at hevents'
        rw [lifeOf, lifeOf, hevents', h.statusOf_of_removed hseq hpending hreceived hlookup']
        exact .single (.abort (statusOf_of_running hseq) message)
    · have hlookup' := hlookup id
      have hevents' := hevents id
      rw [if_neg hid] at hlookup' hevents'
      rw [List.append_nil] at hevents'
      rw [lifeOf_congr hpending hreceived hlookup' hevents']
      exact .refl

section Phases

variable (cfg : DistributedLoopConfig) (t) (st)

theorem abortAll_passes : Passes t st (st.abortAll t) := by
  have hpipeline : Passes t st { st with pipeline := (t.ops.abortAllSequences st.pipeline).2 } :=
    .of_same rfl rfl rfl rfl
  exact hpipeline.trans (foldl_abort_passes _ _ _ _)

variable {st}

section Front

variable {req : PendingRequest} {rest : List PendingRequest}
  (hpending : st.pending = req :: rest) (hpending' : st'.pending = rest)
  (hreceived : st'.received = st.received)
include hpending hpending' hreceived

/-- The first waiting request goes: the others do not notice. -/
theorem statusOf_of_tail (hne : id ≠ req.seqId)
    (hlookup : st'.active.lookup id = st.active.lookup id) : st'.statusOf id = st.statusOf id := by
  have hfind : st.pending.find? (·.seqId = id) = rest.find? (·.seqId = id) := by
    rw [hpending]
    exact List.find?_cons_of_neg (by simpa using Ne.symm hne)
  rw [statusOf, statusOf, hfind, hpending', hreceived, hlookup]

omit hreceived in
theorem Sane.ids_of_cons (h : st.Sane) : req ∈ st.pending ∧ st'.pending.Sublist st.pending ∧
    ∀ r ∈ st'.pending, r.seqId ≠ req.seqId := by
  have hids := (h.pending.map (·.seqId)).nodup h.received
  rw [hpending, List.map_cons, List.nodup_cons] at hids
  rw [hpending, hpending']
  refine ⟨.head _, List.sublist_cons_self .., fun r hr heq => hids.1 ?_⟩
  exact heq ▸ List.mem_map_of_mem hr

/-- The first waiting request is let in. -/
theorem enter_passes (hactive : st'.active = st.active.insert req.seqId (activate req))
    (hevents : st'.events = st.events) : Passes t st st' := by
  intro h
  obtain ⟨hhead, htail, hother⟩ := h.ids_of_cons hpending hpending'
  have hknown : req.seqId ∈ st'.received.map (·.seqId) := by
    rw [hreceived]
    exact List.mem_map_of_mem (h.pending.subset hhead)
  refine ⟨⟨fun {id seq} hseq => ?_, hreceived ▸ h.received, hreceived ▸ htail.trans h.pending,
    fun r hr => ?_, fun {id seq} hseq => ?_⟩, fun id jobs drawn => ?_⟩
  · rw [hactive] at hseq
    rcases Assoc.lookup_insert_eq_some.1 hseq with ⟨rfl, rfl⟩ | ⟨-, hseq⟩
    · rfl
    · exact h.keyed hseq
  · rw [hactive, AList.lookup_insert_ne (hother r hr)]
    exact h.apart r (htail.subset hr)
  · rw [hactive] at hseq
    rcases Assoc.lookup_insert_eq_some.1 hseq with ⟨rfl, rfl⟩ | ⟨-, hseq⟩
    · exact hknown
    · exact hreceived ▸ h.known hseq
  · by_cases hid : id = req.seqId
    · subst hid
      have hrunning : st'.active.lookup req.seqId = some (activate req) := by
        rw [hactive, AList.lookup_insert]
      rw [lifeOf, lifeOf, hevents, statusOf_of_running hrunning]
      exact .single (.enter (h.statusOf_of_waiting hhead))
    · have hlookup : st'.active.lookup id = st.active.lookup id := by
        rw [hactive, AList.lookup_insert_ne hid]
      rw [lifeOf, lifeOf, hevents, statusOf_of_tail hpending hpending' hreceived hid hlookup]
      exact .refl

/-- The first waiting request is turned away. -/
theorem refuse_passes {message : String} (hactive : st'.active = st.active)
    (hevents : st'.events = st.events ++ [(req.seqId, .error message)]) : Passes t st st' := by
  intro h
  obtain ⟨hhead, htail, hother⟩ := h.ids_of_cons hpending hpending'
  refine ⟨h.shrink htail hreceived fun hseq => ⟨_, hactive ▸ hseq, rfl⟩, fun id jobs drawn => ?_⟩
  by_cases hid : id = req.seqId
  · subst hid
    have hfind : st'.pending.find? (·.seqId = req.seqId) = none :=
      List.find?_eq_none.2 fun r hr => by simpa using hother r hr
    have hover : st'.statusOf req.seqId = .over := by
      rw [statusOf_of_none (hactive ▸ h.apart req hhead) hfind, hreceived]
      exact if_pos (List.mem_map_of_mem (h.pending.subset hhead))
    rw [lifeOf, lifeOf, hevents, hover, eventsOf_append, eventsOf_self]
    exact .single (.refuse (h.statusOf_of_waiting hhead) message)
  · rw [lifeOf, lifeOf, hevents, eventsOf_append, eventsOf_of_ne (Ne.symm hid), List.append_nil,
      statusOf_of_tail hpending hpending' hreceived hid (by rw [hactive])]
    exact .refl

end Front

theorem rejectPending_passes (message : String) (st : DistributedState π) :
    Passes t st (st.rejectPending message) := by
  -- the waiting requests are turned away one after the other
  induction hpending : st.pending generalizing st with
  | nil => exact .of_same hpending.symm rfl rfl (by simp [rejectPending, hpending])
  | cons req rest ih =>
    have hfirst : Passes t st { st with
        pending := rest, events := st.events ++ [(req.seqId, .error message)] } :=
      refuse_passes t hpending rfl rfl rfl rfl
    have hrest := hfirst.trans (ih _ rfl)
    simpa [rejectPending, hpending] using hrest

theorem admitOne_passes : Passes t st (st.admitOne cfg t) := by
  unfold admitOne
  split
  · exact .refl t st
  · next req rest hpending =>
    split
    · split
      · exact enter_passes t hpending rfl rfl rfl rfl
      · exact refuse_passes t hpending rfl rfl rfl rfl
    · exact .refl t st

end Phases

end DistributedState

end Fracture
