import Fracture.Scheduler.Fill

/-!
# The limits of a decision

A decision stays within the three limits of the scheduler, and decodes
come first in it. The loops share their counters, so one invariant,
`Within`, goes through all three of them. A decode loop that stops early
leaves no room behind, and then the loops after it add nothing: a
decision with a prefill has every decode there is.
-/

namespace Fracture

open PagedKvCacheManager

variable {R : Type}

/-- The prompt tokens in a decision. -/
def SchedulerDecision.prefillTokens (d : SchedulerDecision) : ℕ :=
  (d.prefills.map (·.tokenIds.length)).sum

namespace BatchScheduler

variable {s : BatchScheduler} (order : IterOrder) (closed : ℕ → Bool) (c : PagedKvCacheManager R)

/-- What is promised of a decision. A sequence is kept under its own id. -/
structure Lawful (s : BatchScheduler) (closed : ℕ → Bool) (d : SchedulerDecision) : Prop where
  counted : d.totalTokens = jobTokens d
  tokens : d.totalTokens ≤ s.maxBatchTokens
  prefills : d.prefillTokens ≤ s.maxPrefillTokens
  size : d.decodes.length + d.prefills.length ≤ s.maxBatchSize
  decodesFirst : d.prefills ≠ [] → ∀ {id seq}, s.active.lookup id = some seq → seq.seqId = id →
    seq.remainingPrefill = [] → closed id = false → ∃ job ∈ d.decodes, job.seqId = id

/-- A decision in the making is within the limits. -/
structure Within (s : BatchScheduler) (st : Building R) : Prop where
  size : st.decision.decodes.length + st.decision.prefills.length ≤ s.maxBatchSize
  tokens : st.decision.totalTokens ≤ s.maxBatchTokens
  counted : st.decision.prefillTokens = st.prefillTokens
  prefills : st.prefillTokens ≤ s.maxPrefillTokens

/-- A chunk is cut to the room there is. -/
theorem Within.addPrefill {st : Building R} (h : s.Within st) (hroom : s.Room st) {job : PrefillJob}
    {len : ℕ} (hjob : job.tokenIds.length = s.fitting st len) (seq : ActiveSequence) :
    s.Within (addPrefill st job (s.fitting st len) seq) := by
  obtain ⟨hfull, hbatch, hprefill⟩ := hroom
  have hsize := h.size
  have htokens := h.tokens
  have hcounted := h.counted
  have hmax := h.prefills
  have hfit : s.fitting st len ≤ s.maxBatchTokens - st.decision.totalTokens ∧
      s.fitting st len ≤ s.maxPrefillTokens - st.prefillTokens := by
    unfold fitting batchCap prefillCap
    omega
  unfold full at hfull
  refine ⟨?_, ?_, ?_, ?_⟩
  · dsimp only [BatchScheduler.addPrefill]
    rw [List.length_append, List.length_singleton]
    omega
  · dsimp only [BatchScheduler.addPrefill]
    omega
  · dsimp only [BatchScheduler.addPrefill, SchedulerDecision.prefillTokens] at hcounted ⊢
    rw [List.map_append, List.sum_append, hcounted, List.map_singleton, List.sum_singleton, hjob]
  · dsimp only [BatchScheduler.addPrefill]
    omega

/-- The decode loop starts within the limits and stays there. -/
theorem within_decoded :
    s.Within (s.decoded order closed c) := by
  have hdecodes : (s.decoded order closed c).decision.prefills = [] ∧
      (s.decoded order closed c).decision.decodes.length ≤ s.maxBatchSize ∧
      (s.decoded order closed c).decision.totalTokens ≤ s.maxBatchTokens := by
    refine addDecodes_invariant (P := fun d => d.prefills = [] ∧
      d.decodes.length ≤ s.maxBatchSize ∧ d.totalTokens ≤ s.maxBatchTokens)
      (fun _ _ hroom hd => ?_) ⟨rfl, Nat.zero_le _, Nat.zero_le _⟩
    obtain ⟨hnone, -, -⟩ := hd
    obtain ⟨hfull, htokens⟩ := hroom
    unfold full at hfull
    rw [hnone, List.length_nil] at hfull
    refine ⟨hnone, ?_, ?_⟩
    · rw [List.length_append, List.length_singleton]
      omega
    · dsimp only
      omega
  obtain ⟨hnone, hsize, htokens⟩ := hdecodes
  refine ⟨?_, htokens, ?_, Nat.zero_le _⟩
  · rwa [hnone, List.length_nil, Nat.add_zero]
  · rw [SchedulerDecision.prefillTokens, hnone]
    rfl

/-- All three loops together stay within the limits. -/
theorem within_schedule :
    s.Within (s.addRequests (s.availableBlocks c) s.prefillQueue (s.underway order closed c)).2 := by
  refine addRequests_invariant (P := s.Within)
    (fun _ _ hst => ⟨hst.size, hst.tokens, hst.counted, hst.prefills⟩)
    (fun {st req handle c'} _ _ hroom _ hst => ?_)
    (addChunks_invariant (P := s.Within) (fun {st id seq} _ hroom hst => ?_)
      (within_decoded order closed c))
  · have hle := s.fitting_le st req.promptTokens.length
    have hjob : (firstJob req handle (s.fitting st req.promptTokens.length)).tokenIds.length =
        s.fitting st req.promptTokens.length := by
      rw [firstJob, List.length_take, Nat.min_eq_left hle]
    have hcache : s.Within { st with cache := c' } :=
      ⟨hst.size, hst.tokens, hst.counted, hst.prefills⟩
    exact hcache.addPrefill hroom hjob _
  · have hle := s.fitting_le st seq.remainingPrefill.length
    have hjob : (chunkJob id seq (s.fitting st seq.remainingPrefill.length)).tokenIds.length =
        s.fitting st seq.remainingPrefill.length := by
      rw [chunkJob, List.length_take, Nat.min_eq_left hle]
    exact hst.addPrefill hroom hjob _

/-! ## Decodes come first -/

/-- The decode loop stops for want of room, or has every open sequence. -/
theorem addDecodes_stops_or_all (ids : List ℕ) (d : SchedulerDecision) :
    ¬ s.DecodeRoom (s.addDecodes closed ids d) ∨
      ∀ id ∈ ids, ∀ {seq}, s.active.lookup id = some seq → closed id = false →
        decodeJob id seq ∈ (s.addDecodes closed ids d).decodes := by
  induction ids generalizing d with
  | nil => exact .inr (List.forall_mem_nil _)
  | cons id ids ih =>
    rcases s.addDecodes_cons closed id ids d with ⟨hfull, hstop⟩ | ⟨hskip, hrest⟩ |
      ⟨seq, hseq, hopen, hroom, hmore⟩
    · rw [hstop]
      exact .inl hfull
    · rw [hrest]
      refine (ih d).imp_right fun hall g hg gseq hgseq hgopen => ?_
      rcases List.mem_cons.1 hg with rfl | hg
      · rcases hskip with hnone | hclosed
        · cases hnone.symm.trans hgseq
        · cases hclosed.symm.trans hgopen
      · exact hall g hg hgseq hgopen
    · rw [hmore]
      refine (ih _).imp_right fun hall g hg gseq hgseq hgopen => ?_
      rcases List.mem_cons.1 hg with rfl | hg
      · cases hseq.symm.trans hgseq
        -- a decode that is in stays in
        refine addDecodes_invariant (P := fun d => decodeJob g seq ∈ d.decodes)
          (fun _ _ _ hmem => List.mem_append_left _ hmem) ?_
        exact List.mem_append_right _ (.head _)
      · exact hall g hg hgseq hgopen

theorem addChunks_of_not_room {st : Building R} (h : ¬ s.Room st) (ids : List ℕ) :
    s.addChunks ids st = st := by
  induction ids with
  | nil => rfl
  | cons id ids ih =>
    rcases s.addChunks_cons id ids st with ⟨-, hstop⟩ | ⟨-, hskip⟩ | ⟨seq, -, hroom, -⟩
    · exact hstop
    · exact hskip.trans ih
    · exact absurd hroom h

/-- Without room there are no prefills. -/
theorem prefills_of_not_decodeRoom {closed : ℕ → Bool} (c : PagedKvCacheManager R)
    (h : ¬ s.DecodeRoom (s.decoded order closed c).decision) :
    (s.schedule order closed c).1.prefills = [] := by
  have hroom : ¬ s.Room (s.decoded order closed c) := by
    rintro ⟨hfull, hbatch, -⟩
    refine h ⟨hfull, ?_⟩
    unfold batchCap at hbatch
    omega
  rw [schedule_decision, underway, addChunks_of_not_room hroom, addRequests_of_not_room hroom]
  exact addDecodes_keeps _ _

/-- **A decision keeps to the limits, and decodes come first in it.** -/
theorem schedule_lawful (s : BatchScheduler) (order : IterOrder) (closed : ℕ → Bool)
    (c : PagedKvCacheManager R) : s.Lawful closed (s.schedule order closed c).1 := by
  have hwithin := s.within_schedule order closed c
  refine ⟨total_schedule s order closed c, hwithin.tokens, ?_, hwithin.size, ?_⟩
  · rw [schedule_decision, hwithin.counted]
    exact hwithin.prefills
  · intro hprefills id seq hseq hid hdone hopen
    rcases addDecodes_stops_or_all (s := s) closed (s.idsOf order (·.remainingPrefill.isEmpty))
      ⟨[], [], 0⟩ with hfull | hall
    · exact absurd (prefills_of_not_decodeRoom order c hfull) hprefills
    · have hmem : id ∈ s.idsOf order (·.remainingPrefill.isEmpty) := by
        refine List.mem_map.2 ⟨seq, List.mem_filter.2 ⟨List.mem_filterMap.2 ⟨id, ?_, hseq⟩, ?_⟩, hid⟩
        · rw [(order.perm _).mem_iff]
          exact AList.mem_keys.2 (AList.lookup_isSome.1 (by rw [hseq]; rfl))
        · rw [hdone]
          rfl
      refine ⟨decodeJob id seq, ?_, rfl⟩
      rw [decodes_schedule]
      exact hall id hmem hseq hopen

end BatchScheduler

end Fracture
