import Fracture.Scheduler.Batch

/-!
# What gets into a batch

The three loops of the scheduler share the limits of the batch, and each
stops at the first limit it meets. Here is, from the state before, when
a decision has a token at all (`HasTokens`), and when a prompt that is
already begun gets a chunk into it (`Reached`).
-/

namespace Fracture

open Effect PagedKvCacheManager

variable {R : Type}

namespace BatchScheduler

variable {s : BatchScheduler} {closed : ℕ → Bool}

/-- A sequence whose client is there is past its prompt. -/
def Decodable (s : BatchScheduler) (closed : ℕ → Bool) : Prop :=
  ∃ id seq, s.active.lookup id = some seq ∧ seq.remainingPrefill = [] ∧ closed id = false

/-- A running sequence is not past its prompt. -/
def Begun (s : BatchScheduler) : Prop :=
  ∃ id seq, s.active.lookup id = some seq ∧ seq.remainingPrefill ≠ []

/-- The first prompt in a queue that is not empty gets in: there is room
for a job and a block for each request up to it, and its own blocks are
available. -/
def Admittable (room free available : ℕ) (queue : List PendingRequest) : Prop :=
  ∃ front req rest, queue = front ++ req :: rest ∧ (∀ r ∈ front, r.promptTokens = []) ∧
    req.promptTokens ≠ [] ∧ front.length < room ∧ front.length < free ∧
    blocksNeeded req ≤ available

/-- There is a token to run. -/
def HasTokens (s : BatchScheduler) (closed : ℕ → Bool) (c : PagedKvCacheManager R) : Prop :=
  0 < s.maxBatchSize ∧ 0 < s.maxBatchTokens ∧
    (s.Decodable closed ∨ 0 < s.maxPrefillTokens ∧ (s.Begun ∨
      Admittable s.maxBatchSize c.numFreeBlocks
        (c.numFreeBlocks - s.reservedBlocks c.pool.capacity) s.prefillQueue))

/-! ## Decodes -/

variable {ids : List ℕ}

/-- The decode loop adds one decode for each open id, up to the limits. -/
theorem length_addDecodes (closed : ℕ → Bool) (hids : ∀ id ∈ ids, (s.active.lookup id).isSome)
    (d : SchedulerDecision) (hprefills : d.prefills = [])
    (htotal : d.totalTokens = d.decodes.length)
    (hle : d.decodes.length ≤ min s.maxBatchSize s.maxBatchTokens) :
    (s.addDecodes closed ids d).decodes.length =
      min (d.decodes.length + (ids.filter fun id => !closed id).length)
        (min s.maxBatchSize s.maxBatchTokens) := by
  induction ids generalizing d with
  | nil =>
    rw [addDecodes, List.filter_nil, List.length_nil]
    omega
  | cons id ids ih =>
    have hids' : ∀ g ∈ ids, (s.active.lookup g).isSome := fun g hg => hids g (.tail _ hg)
    rcases s.addDecodes_cons closed id ids d with ⟨hfull, hstop⟩ | ⟨hskip, hrest⟩ |
      ⟨seq, -, hopen, hroom, hadd⟩
    · rw [hstop]
      simp only [DecodeRoom, full, hprefills, List.length_nil, htotal] at hfull
      omega
    · have hclosed : closed id = true := by
        rcases hskip with hnone | hclosed
        · have hsome := hids id (.head _)
          rw [hnone] at hsome
          cases hsome
        · exact hclosed
      rw [hrest, ih hids' d hprefills htotal hle, List.filter_cons_of_neg (by simp [hclosed])]
    · simp only [DecodeRoom, full, hprefills, List.length_nil, htotal] at hroom
      have hrest := ih hids' { d with
        decodes := d.decodes ++ [decodeJob id seq], totalTokens := d.totalTokens + 1 } hprefills
      simp only [List.length_append, List.length_singleton] at hrest
      rw [hadd, hrest (by omega) (by omega), List.filter_cons_of_pos (by simp [hopen]),
        List.length_cons]
      omega

theorem addDecodes_keeps (ids : List ℕ) (d : SchedulerDecision) :
    (s.addDecodes closed ids d).prefills = d.prefills :=
  addDecodes_invariant (P := fun d' => d'.prefills = d.prefills) (fun _ _ _ h => h) rfl

/-! ## Chunks -/

/-- The chunk loop only adds. -/
theorem addChunks_grows (ids : List ℕ) (st : Building R) :
    st.decision.prefills <+: (s.addChunks ids st).decision.prefills ∧
      st.decision.totalTokens ≤ (s.addChunks ids st).decision.totalTokens :=
  addChunks_invariant (P := fun st' => st.decision.prefills <+: st'.decision.prefills ∧
      st.decision.totalTokens ≤ st'.decision.totalTokens)
    (fun _ _ h => ⟨h.1.trans (List.prefix_append _ _), h.2.trans (Nat.le_add_right _ _)⟩)
    ⟨List.prefix_rfl, le_rfl⟩

/-- The prompt tokens some running sequences have left. -/
def promptLeft (active : AList fun _ : ℕ => ActiveSequence) (ids : List ℕ) : ℕ :=
  (ids.map fun id => ((active.lookup id).map (·.remainingPrefill.length)).getD 0).sum

variable {g : ℕ} {active : AList fun _ : ℕ => ActiveSequence} {front : List ℕ}

theorem promptLeft_insert (hg : g ∉ front) (seq : ActiveSequence) :
    promptLeft (active.insert g seq) front = promptLeft active front := by
  unfold promptLeft
  refine congrArg _ (List.map_congr_left fun k hk => ?_)
  have hne : k ≠ g := fun heq => hg (heq ▸ hk)
  rw [AList.lookup_insert_ne hne]

variable {seq : ActiveSequence}

theorem promptLeft_cons (hseq : active.lookup g = some seq) (front : List ℕ) :
    promptLeft active (g :: front) = promptLeft active front + seq.remainingPrefill.length := by
  simp [promptLeft, hseq, Nat.add_comm]

/-- The batch has room for `k` jobs with `n` prompt tokens, and one more. -/
def RoomFor (s : BatchScheduler) (st : Building R) (k n : ℕ) : Prop :=
  st.decision.decodes.length + st.decision.prefills.length + k < s.maxBatchSize ∧
    st.decision.totalTokens + n < s.maxBatchTokens ∧ st.prefillTokens + n < s.maxPrefillTokens

variable {st : Building R}

theorem room_iff : s.Room st ↔ s.RoomFor st 0 0 := by
  unfold Room RoomFor full batchCap prefillCap
  omega

theorem RoomFor.room {k n : ℕ} (h : s.RoomFor st k n) : s.Room st := by
  rw [room_iff]
  unfold RoomFor at h ⊢
  omega

/-- A prompt that is added takes the room of all its tokens: if only a part
of them fits, there is no more room. -/
theorem roomFor_addPrefill (st : Building R) (job : PrefillJob) (seq : ActiveSequence)
    (len k n : ℕ) :
    s.RoomFor (addPrefill st job (s.fitting st len) seq) k n ↔ s.RoomFor st (k + 1) (n + len) := by
  unfold RoomFor fitting batchCap prefillCap addPrefill
  dsimp only
  rw [List.length_append, List.length_singleton]
  omega

/-- The batch has room for a chunk when the prompts of `front` are in it. -/
def RoomAfter (s : BatchScheduler) (st : Building R) (front : List ℕ) : Prop :=
  s.RoomFor st front.length (promptLeft st.active front)

theorem roomAfter_chunked_iff (hseq : st.active.lookup g = some seq) (hg : g ∉ front) :
    s.RoomAfter (s.chunked st g seq) front ↔ s.RoomAfter st (g :: front) := by
  have hleft : promptLeft (s.chunked st g seq).active front = promptLeft st.active front :=
    promptLeft_insert hg _
  rw [RoomAfter, RoomAfter, hleft, promptLeft_cons hseq]
  exact roomFor_addPrefill ..

variable {id : ℕ}

/-- **A prompt gets a chunk into the batch if and only if the prompts
before it leave room.** -/
theorem prefillsOf_addChunks_iff (hnodup : ids.Nodup) (st : Building R)
    (hids : ∀ g ∈ ids, ∃ seq, st.active.lookup g = some seq ∧ seq.remainingPrefill ≠ [])
    (hnone : st.decision.prefillsOf id = []) :
    (s.addChunks ids st).decision.prefillsOf id ≠ [] ↔
      ∃ front rest, ids = front ++ id :: rest ∧ s.RoomAfter st front := by
  induction ids generalizing st with
  | nil => simp [addChunks, hnone]
  | cons g ids ih =>
    obtain ⟨hnotMem, hnodup'⟩ := List.nodup_cons.1 hnodup
    obtain ⟨seq, hseq, hrem⟩ := hids g (.head _)
    rcases s.addChunks_cons g ids st with ⟨hfull, hstop⟩ | ⟨hskip, -⟩ | ⟨seq', hseq', hroom, hadd⟩
    · rw [hstop]
      refine iff_of_false (fun hne => hne hnone) ?_
      rintro ⟨front, rest, -, hafter⟩
      exact hfull hafter.room
    · cases hskip.symm.trans hseq
    · cases hseq.symm.trans hseq'
      rw [hadd]
      by_cases hid : id = g
      · subst hid
        refine iff_of_true (fun hnil => ?_) ⟨[], ids, rfl, ?_⟩
        · have hadded := (addChunks_grows (s := s) ids (s.chunked st id seq)).1.subset
            (List.mem_append_right _ (.head _))
          exact List.ne_nil_of_mem (mem_prefillsOf.2 ⟨hadded, rfl⟩) hnil
        · exact room_iff.1 hroom
      · have hids' : ∀ k ∈ ids, ∃ kseq, (s.chunked st g seq).active.lookup k = some kseq ∧
              kseq.remainingPrefill ≠ [] := by
          intro k hk
          obtain ⟨kseq, hkseq, hkrem⟩ := hids k (.tail _ hk)
          have hne : k ≠ g := fun heq => hnotMem (heq ▸ hk)
          exact ⟨kseq, by rwa [chunked, addPrefill, chunkJob, AList.lookup_insert_ne hne], hkrem⟩
        rw [ih hnodup' _ hids' ?_]
        · constructor
          · rintro ⟨front, rest, rfl, hafter⟩
            refine ⟨g :: front, rest, rfl, (roomAfter_chunked_iff hseq fun hmem => ?_).1 hafter⟩
            exact hnotMem (List.mem_append_left _ hmem)
          · rintro ⟨_ | ⟨g', front⟩, rest, heq, hafter⟩
            · cases heq
              exact absurd rfl hid
            · cases heq
              refine ⟨front, rest, rfl, (roomAfter_chunked_iff hseq fun hmem => ?_).2 hafter⟩
              exact hnotMem (List.mem_append_left _ hmem)
        · unfold SchedulerDecision.prefillsOf at hnone ⊢
          simp [chunked, addPrefill, chunkJob, hnone, Ne.symm hid]

/-- From an empty batch, the chunk loop adds tokens if it has room and an
id, and else it does nothing. -/
theorem addChunks_of_empty
    (hids : ∀ g ∈ ids, ∃ seq, st.active.lookup g = some seq ∧ seq.remainingPrefill ≠ []) :
    s.Room st ∧ ids ≠ [] ∧ (s.addChunks ids st).decision.totalTokens ≠ 0 ∨
      ¬ (s.Room st ∧ ids ≠ []) ∧ s.addChunks ids st = st := by
  cases ids with
  | nil => exact .inr ⟨by simp, rfl⟩
  | cons g ids =>
    obtain ⟨seq, hseq, hrem⟩ := hids g (.head _)
    rcases s.addChunks_cons g ids st with ⟨hfull, hstop⟩ | ⟨hskip, -⟩ | ⟨seq', hseq', hroom, hadd⟩
    · exact .inr ⟨fun h => hfull h.1, hstop⟩
    · cases hskip.symm.trans hseq
    · cases hseq.symm.trans hseq'
      refine .inl ⟨hroom, by simp, ?_⟩
      have hpos := hroom.fitting_pos (List.length_pos_iff.2 hrem)
      have hgrows := (addChunks_grows (s := s) ids (s.chunked st g seq)).2
      rw [hadd]
      simp only [chunked, addPrefill] at hgrows ⊢
      omega

/-! ## Requests -/

theorem addRequests_of_not_room (h : ¬ s.Room st) (available : ℕ) (queue : List PendingRequest) :
    s.addRequests available queue st = (queue, st) := by
  cases queue with
  | nil => rfl
  | cons req queue =>
    rcases s.addRequests_cons available req queue st with ⟨-, hstop, -⟩ |
      ⟨e, c', message, -, hroom, -⟩ | ⟨handle, c', -, hroom, -⟩
    · exact hstop
    · exact absurd hroom h
    · exact absurd hroom h

variable {queue : List PendingRequest}

/-- Jobs of other sequences. -/
theorem prefillsOf_addRequests (hid : ∀ req ∈ queue, req.seqId ≠ id) (available : ℕ)
    (st : Building R) :
    (s.addRequests available queue st).2.decision.prefillsOf id = st.decision.prefillsOf id := by
  refine addRequests_invariant
    (P := fun st' => st'.decision.prefillsOf id = st.decision.prefillsOf id)
    (fun _ _ hst => hst) (fun hmem _ _ _ hst => ?_) rfl
  unfold SchedulerDecision.prefillsOf at hst ⊢
  simp [entered, addPrefill, firstJob, hid _ hmem, hst]

/-- The queue loop only adds tokens. -/
theorem total_addRequests_le (available : ℕ) (queue : List PendingRequest) (st : Building R) :
    st.decision.totalTokens ≤ (s.addRequests available queue st).2.decision.totalTokens :=
  addRequests_invariant (P := fun st' => st.decision.totalTokens ≤ st'.decision.totalTokens)
    (fun _ _ hst => hst) (fun _ _ _ _ hst => hst.trans (Nat.le_add_right _ _)) le_rfl

variable {room free available : ℕ} {req : PendingRequest}

theorem admittable_cons_of_ne_nil (hne : req.promptTokens ≠ []) :
    Admittable room free available (req :: queue) ↔
      0 < room ∧ 0 < free ∧ blocksNeeded req ≤ available := by
  constructor
  · rintro ⟨_ | ⟨r, front⟩, req', rest, heq, hempty, -, hroom, hfree, hblocks⟩
    · cases heq
      exact ⟨hroom, hfree, hblocks⟩
    · cases heq
      exact absurd (hempty req (.head _)) hne
  · rintro ⟨hroom, hfree, hblocks⟩
    exact ⟨[], req, queue, rfl, by simp, hne, hroom, hfree, hblocks⟩

theorem admittable_cons_of_nil (hnil : req.promptTokens = []) :
    Admittable room free available (req :: queue) ↔
      Admittable (room - 1) (free - 1) available queue := by
  constructor
  · rintro ⟨_ | ⟨r, front⟩, req', rest, heq, hempty, hne, hroom, hfree, hblocks⟩
    · cases heq
      exact absurd hnil hne
    · cases heq
      rw [List.length_cons] at hroom hfree
      exact ⟨front, req', rest, rfl, fun r hr => hempty r (.tail _ hr), hne, by omega, by omega,
        hblocks⟩
  · rintro ⟨front, req', rest, rfl, hempty, hne, hroom, hfree, hblocks⟩
    refine ⟨req :: front, req', rest, rfl, ?_, hne, by rw [List.length_cons]; omega,
      by rw [List.length_cons]; omega, hblocks⟩
    exact List.forall_mem_cons.2 ⟨hnil, hempty⟩

/-- **The queue adds a token if and only if its first prompt gets in.** -/
theorem total_addRequests_iff (htokens : 0 < s.maxBatchTokens) (hprefill : 0 < s.maxPrefillTokens)
    (available : ℕ) (queue : List PendingRequest) (st : Building R)
    (htotal : st.decision.totalTokens = 0) (hzero : st.prefillTokens = 0) :
    (s.addRequests available queue st).2.decision.totalTokens ≠ 0 ↔
      Admittable (s.maxBatchSize - (st.decision.decodes.length + st.decision.prefills.length))
        st.cache.numFreeBlocks available queue := by
  induction queue generalizing st with
  | nil =>
    refine iff_of_false (fun hne => hne htotal) ?_
    rintro ⟨front, req, rest, heq, -⟩
    simp at heq
  | cons req queue ih =>
    rcases s.addRequests_cons available req queue st with ⟨hwhy, hstop, -⟩ |
      ⟨e, c', message, herr, -, -, hskip, -⟩ | ⟨handle, c', hok, hroom, hblocks, hadd, -⟩
    · rw [hstop]
      refine iff_of_false (fun hne => hne htotal) ?_
      rintro ⟨front, req', rest, heq, hempty, -, hlt, -, hle⟩
      rcases hwhy with hfull | hblocks
      · refine hfull ⟨?_, ?_, ?_⟩
        · unfold full
          omega
        · unfold batchCap
          omega
        · unfold prefillCap
          omega
      · -- An empty prompt needs no block, so the request itself would have to get in.
        cases front with
        | nil =>
          cases heq
          omega
        | cons r front =>
          cases heq
          have hnil := hempty req (.head _)
          unfold blocksNeeded at hblocks
          rw [hnil, List.length_nil] at hblocks
          omega
    · -- There is no block left, for this request or any after it.
      have hnone := (of_alloc_error herr).1
      have hnone' := numFreeBlocks_of_alloc_error herr
      rw [hskip, ih (turnedAway st req c' message) htotal hzero]
      refine iff_of_false ?_ ?_
      · rintro ⟨front, req', rest, -, -, -, -, hlt, -⟩
        dsimp only [turnedAway] at hlt
        omega
      · rintro ⟨front, req', rest, -, -, -, -, hlt, -⟩
        omega
    · have hfree := (allocOk hok).free
      rw [hadd]
      by_cases hne : req.promptTokens = []
      · have hfit : s.fitting st req.promptTokens.length = 0 := by
          rw [hne]
          simp [fitting]
        unfold entered
        rw [hfit, admittable_cons_of_nil hne, ih _ (by simp [addPrefill, htotal])
          (by simp [addPrefill, hzero])]
        simp only [addPrefill, List.length_append, List.length_singleton]
        rw [show c'.numFreeBlocks = st.cache.numFreeBlocks - 1 by omega, Nat.sub_sub,
          Nat.add_assoc]
      · rw [admittable_cons_of_ne_nil hne]
        refine iff_of_true (fun hz => ?_) ⟨?_, by omega, hblocks⟩
        · have hpos := hroom.fitting_pos (List.length_pos_iff.2 hne)
          have hle := total_addRequests_le (s := s) available queue (s.entered st req handle c')
          rw [hz] at hle
          simp only [entered, addPrefill] at hle
          omega
        · have := hroom.1
          unfold full at this
          omega

/-! ## The whole decision -/

section Decision

variable (order : IterOrder)

section

variable (s : BatchScheduler) (order : IterOrder) (closed : ℕ → Bool)

/-- The open sequences past their prompt. -/
def openDecodes : ℕ :=
  ((s.idsOf order (·.remainingPrefill.isEmpty)).filter fun id => !closed id).length

/-- A prompt already begun gets a chunk: decodes come first, and then the
prompts before it in the order of the map. -/
def Reached (id : ℕ) : Prop :=
  ∃ front rest, s.idsOf order (!·.remainingPrefill.isEmpty) = front ++ id :: rest ∧
    s.openDecodes order closed + front.length < s.maxBatchSize ∧
    s.openDecodes order closed + promptLeft s.active front < s.maxBatchTokens ∧
    promptLeft s.active front < s.maxPrefillTokens

/-- The state after the decode loop. -/
def decoded (c : PagedKvCacheManager R) : Building R :=
  { decision := s.addDecodes closed (s.idsOf order (·.remainingPrefill.isEmpty)) ⟨[], [], 0⟩,
    prefillTokens := 0, active := s.active, cache := c, events := [] }

/-- The ids of the prompts that are begun. -/
def begunIds : List ℕ := s.idsOf order (!·.remainingPrefill.isEmpty)

/-- The state after the prompts that are begun. -/
def underway (c : PagedKvCacheManager R) : Building R :=
  s.addChunks (s.begunIds order) (s.decoded order closed c)

/-- The blocks that requests may take in a call. -/
def availableBlocks (c : PagedKvCacheManager R) : ℕ :=
  c.numFreeBlocks - s.reservedBlocks c.pool.capacity

/-- The decisions of a whole call, loop by loop. -/
theorem schedule_decision (c : PagedKvCacheManager R) :
    (s.schedule order closed c).1 = (s.addRequests (s.availableBlocks c) s.prefillQueue
      (s.underway order closed c)).2.decision := rfl

end

/-- The loops after the decode loop leave the decodes as they are. -/
theorem decodes_schedule (order : IterOrder) (closed : ℕ → Bool) (c : PagedKvCacheManager R) :
    (s.schedule order closed c).1.decodes = (s.decoded order closed c).decision.decodes := by
  refine addRequests_invariant
    (P := fun st => st.decision.decodes = (s.decoded order closed c).decision.decodes)
    (fun _ _ hst => hst) (fun _ _ _ _ hst => hst) ?_
  exact addChunks_invariant
    (P := fun st => st.decision.decodes = (s.decoded order closed c).decision.decodes)
    (fun _ _ hst => hst) rfl

variable (hids : ∀ {id seq}, s.active.lookup id = some seq → seq.seqId = id)
include hids

theorem length_decoded (closed : ℕ → Bool) (c : PagedKvCacheManager R) :
    (s.decoded order closed c).decision.prefills = [] ∧
    (s.decoded order closed c).decision.decodes.length =
      min (s.openDecodes order closed) (min s.maxBatchSize s.maxBatchTokens) ∧
    (s.decoded order closed c).decision.totalTokens =
      (s.decoded order closed c).decision.decodes.length := by
  have hprefills : (s.decoded order closed c).decision.prefills = [] := addDecodes_keeps _ _
  have hlength := length_addDecodes (s := s) closed
    (fun id hid => by
      obtain ⟨seq, hseq, -⟩ := (mem_idsOf hids order (·.remainingPrefill.isEmpty)).1 hid
      rw [hseq]
      rfl) ⟨[], [], 0⟩ rfl rfl (Nat.zero_le _)
  rw [List.length_nil, Nat.zero_add] at hlength
  refine ⟨hprefills, hlength, ?_⟩
  have htotal : (s.decoded order closed c).decision.totalTokens =
      jobTokens (s.decoded order closed c).decision := total_addDecodes closed _ rfl
  rw [htotal, jobTokens, hprefills]
  simp

/-- **When a begun prompt gets a chunk.** -/
theorem prefillsOf_schedule_iff (hwaiting : Waiting s.prefillQueue s.active) (closed : ℕ → Bool)
    (c : PagedKvCacheManager R) {id : ℕ} {seq : ActiveSequence}
    (hseq : s.active.lookup id = some seq) :
    (s.schedule order closed c).1.prefillsOf id ≠ [] ↔ s.Reached order closed id := by
  obtain ⟨hprefills, hlength, htotal⟩ := length_decoded order hids closed c
  have hother : ∀ req ∈ s.prefillQueue, req.seqId ≠ id := by
    rintro req hreq rfl
    cases (hwaiting.notActive req hreq).symm.trans hseq
  have hchunks : (s.schedule order closed c).1.prefillsOf id =
      (s.underway order closed c).decision.prefillsOf id := prefillsOf_addRequests hother _ _
  rw [hchunks, underway, begunIds, prefillsOf_addChunks_iff (nodup_idsOf hids order _) _ (fun g hg => ?_)
    (by simp [SchedulerDecision.prefillsOf, hprefills])]
  · have hactive : (s.decoded order closed c).active = s.active := rfl
    have hzero : (s.decoded order closed c).prefillTokens = 0 := rfl
    unfold Reached RoomAfter RoomFor
    simp only [hprefills, htotal, hlength, hactive, hzero, List.length_nil]
    refine exists₂_congr fun front rest => and_congr_right fun _ => ?_
    omega
  · obtain ⟨gseq, hgseq, hrem⟩ := (mem_idsOf hids order _).1 hg
    exact ⟨gseq, hgseq, by simpa using hrem⟩

theorem decodable_iff (closed : ℕ → Bool) :
    s.Decodable closed ↔ s.openDecodes order closed ≠ 0 := by
  rw [openDecodes, Ne, List.length_eq_zero_iff, List.filter_eq_nil_iff]
  push Not
  constructor
  · rintro ⟨id, seq, hseq, hdone, hopen⟩
    exact ⟨id, (mem_idsOf hids order _).2 ⟨seq, hseq, by simp [hdone]⟩, by simp [hopen]⟩
  · rintro ⟨id, hid, hopen⟩
    obtain ⟨seq, hseq, hdone⟩ := (mem_idsOf hids order _).1 hid
    exact ⟨id, seq, hseq, by simpa using hdone, by simpa using hopen⟩

theorem begun_iff :
    s.Begun ↔ s.begunIds order ≠ [] := by
  constructor
  · rintro ⟨id, seq, hseq, hrem⟩
    exact List.ne_nil_of_mem ((mem_idsOf hids order _).2 ⟨seq, hseq, by simpa using hrem⟩)
  · intro hne
    obtain ⟨id, hid⟩ := List.exists_mem_of_ne_nil _ hne
    obtain ⟨seq, hseq, hrem⟩ := (mem_idsOf hids order _).1 hid
    exact ⟨id, seq, hseq, by simpa using hrem⟩

/-- **When there is a token to run.** -/
theorem total_schedule_iff (closed : ℕ → Bool) (c : PagedKvCacheManager R) :
    (s.schedule order closed c).1.totalTokens ≠ 0 ↔ s.HasTokens closed c := by
  obtain ⟨hprefills, hlength, htotal⟩ := length_decoded order hids closed c
  have hchunkIds : ∀ g ∈ s.begunIds order, ∃ seq,
      (s.decoded order closed c).active.lookup g = some seq ∧ seq.remainingPrefill ≠ [] := by
    intro g hg
    obtain ⟨seq, hseq, hrem⟩ := (mem_idsOf hids order _).1 hg
    exact ⟨seq, hseq, by simpa using hrem⟩
  have hroom : s.Room (s.decoded order closed c) ↔
      (s.decoded order closed c).decision.decodes.length < s.maxBatchSize ∧
      (s.decoded order closed c).decision.decodes.length < s.maxBatchTokens ∧
      0 < s.maxPrefillTokens := by
    unfold Room full batchCap prefillCap
    rw [hprefills, htotal, List.length_nil]
    simp only [decoded]
    omega
  rw [schedule_decision, HasTokens, s.decodable_iff order hids, s.begun_iff order hids]
  have hmono := total_addRequests_le (s := s) (s.availableBlocks c) s.prefillQueue
    (s.underway order closed c)
  have hmono' := (addChunks_grows (s := s) (s.begunIds order) (s.decoded order closed c)).2
  rw [underway] at hmono ⊢
  rcases addChunks_of_empty (s := s) hchunkIds with ⟨hr, hne, hpos⟩ | ⟨hnone, heq⟩
  · rw [hroom] at hr
    refine iff_of_true (by omega) ⟨by omega, by omega, .inr ⟨hr.2.2, .inl hne⟩⟩
  · by_cases hzero : (s.decoded order closed c).decision.decodes.length = 0
    · rw [heq]
      by_cases hr : s.Room (s.decoded order closed c)
      · have hnil : ¬ s.begunIds order ≠ [] := fun hne => hnone ⟨hr, hne⟩
        rw [hroom] at hr
        rw [total_addRequests_iff (by omega) (by omega) _ _ _ (by omega) rfl, hzero, hprefills]
        have hopen : ¬ s.openDecodes order closed ≠ 0 := by omega
        have hsize : 0 < s.maxBatchSize := by omega
        have htokens : 0 < s.maxBatchTokens := by omega
        simp only [hnil, hopen, hsize, htokens, hr.2.2, true_and, false_or, List.length_nil,
          Nat.add_zero, Nat.sub_zero]
        rfl
      · rw [addRequests_of_not_room hr]
        rw [hroom] at hr
        dsimp only
        refine iff_of_false (by omega) ?_
        rintro ⟨hsize, htokens, hopen | ⟨hprefill, -⟩⟩
        · omega
        · omega
    · refine iff_of_true (by omega) ⟨by omega, by omega, .inl (by omega)⟩

end Decision

end BatchScheduler

end Fracture
