import Fracture.Engine.Reference
import Fracture.PagedCache.Contents
import Fracture.Scheduler.Fill
import Fracture.Scheduler.History

/-!
# A client that is gone

A client that closes its channel leaves a running sequence behind, which
the cleanup at the end of a turn removes. But the turn gets to its
cleanup only if it has run a batch: with no token to run, or with a pass
that fails, it is over before. A closed sequence past its prompt is not
given tokens any more, so when it is alone it stays for ever, with all
its blocks, and the loop goes round without a wait.
-/

namespace Fracture

open Effect Runs PagedKvCacheManager BatchScheduler

variable {R W F : Type}

/-- What the engine answers to the batch of a turn. -/
def LoopState.forward (e : Engine R W F) (t : Turn F) (st : LoopState R) :
    Except Fault (List (List F)) :=
  (outcome (batchedForward e.backend e.weights e.layerRange
    ((batchEntries (st.schedule t).2.scheduler (st.schedule t).1).map (·.slice))
    (st.schedule t).2.cache)).map (·.1)

/-- A sequence is no longer running, and its blocks are free. -/
structure Released (tr tr' : Trace R F) (id : ℕ) (seq : ActiveSequence) : Prop where
  entry : tr'.entryOf id = none
  handle : tr'.state.cache.lenOf seq.handle = none
  blocks : ∀ {blocks}, tr.state.cache.sequences.lookup seq.handle = some blocks →
    blocks.blockTable ⊆ tr'.state.cache.pool.freeList

/-- What it takes for a turn to remove a closed sequence: there is a
token to run, and the pass comes through, or it fails with a chunk of the
sequence in its batch. -/
structure CleansUp (e : Engine R W F) (st : LoopState R) (t : Turn F) (id : ℕ) : Prop where
  clean : st.poisoned = false
  tokens : (st.enqueued t).HasTokens t.closed st.cache
  forward : (st.forward e t).isOk ∨ (∃ err, st.forward e t = .error (.error err)) ∧
    (st.enqueued t).Reached t.order t.closed id

section Turn

variable {e : Engine R W F} {tr : Trace R F} {t : Turn F} {id : ℕ} {seq : ActiveSequence}

/-- What a turn answers follows from what the engine answers. -/
theorem result_cases (e : Engine R W F) (hsane : tr.state.Sane) (hfresh : t.Fresh tr.state)
    (hclean : tr.state.poisoned = false) :
    (tr.state.turn e t).1.result = .notRun ∧
      ¬ (tr.state.enqueued t).HasTokens t.closed tr.state.cache ∨
    (tr.state.enqueued t).HasTokens t.closed tr.state.cache ∧
      ((∃ logits, (tr.state.turn e t).1.result = .logits logits ∧ (tr.state.forward e t).isOk) ∨
      (∃ err, (tr.state.turn e t).1.result = .failed err ∧
        tr.state.forward e t = .error (.error err)) ∨
      ∃ why, (tr.state.turn e t).1.result = .panicked ∧
        tr.state.forward e t = .error (.panicked why)) := by
  obtain ⟨events, -, -, hplanned⟩ := schedule_planned hsane hfresh
  have htokens : (tr.state.schedule t).1.totalTokens ≠ 0 ↔
      (tr.state.enqueued t).HasTokens t.closed tr.state.cache := by
    have hiff := total_schedule_iff (s := tr.state.enqueued t) t.order hsane.seqId t.closed
      tr.state.cache
    rw [LoopState.schedule, foldl_enqueue]
    exact hiff
  unfold LoopState.forward
  generalize hd : (tr.state.schedule t).1 = d at *
  generalize hst₁ : (tr.state.schedule t).2 = st₁ at *
  rcases turn_cases e t hclean (Prod.ext hd hst₁) with ⟨hnone, hturn⟩ |
    ⟨⟨htotal, -⟩, hran⟩
  · left
    rw [hturn]
    refine ⟨rfl, fun hhas => ?_⟩
    rcases hnone with hzero | hempty
    · exact htokens.2 hhas hzero
    · exact hplanned.entries_ne_nil (htokens.2 hhas) hempty
  · refine .inr ⟨htokens.1 htotal, ?_⟩
    rcases hran with ⟨logits, c₂, hok, hturn⟩ | ⟨err, c₂, herr, hturn⟩ | ⟨why, c₂, hpanic, hturn⟩
    · rw [hturn, hok]
      exact .inl ⟨logits, rfl, rfl⟩
    · rw [hturn, herr]
      exact .inr (.inl ⟨err, rfl, rfl⟩)
    · rw [hturn, hpanic]
      exact .inr (.inr ⟨why, rfl, rfl⟩)

/-- The part of a closed sequence in a turn is a chunk of its prompt. -/
theorem jobs_of_closed {s : BatchScheduler} {closed : ℕ → Bool} {c c' : PagedKvCacheManager R}
    {before after : Option ActiveSequence} {share : Share}
    (hplan : Scheduled s closed c c' id before share after) (hclosed : closed id = true) :
    share.decodes = [] := by
  by_contra hne
  obtain ⟨dj, hdj⟩ := List.exists_mem_of_ne_nil _ hne
  obtain ⟨-, _, -, -, -, hopen, -⟩ := hplan.of_mem_decodes hdj
  cases hclosed.symm.trans hopen

variable (hsane : tr.Sane) (hfresh : tr.Fresh t) (hseq : tr.entryOf id = some seq)
include hsane hfresh hseq

/-- **A turn removes a closed sequence if and only if it gets to it.** -/
theorem removed_iff_cleansUp (hclosed : t.closed id = true) (hstays : t.cleanupClosed id = true) :
    (tr.next e t).entryOf id = none ↔ CleansUp e tr.state t id := by
  cases hclean : tr.state.poisoned with
  | true =>
    obtain ⟨hstate, -⟩ := Trace.next_of_poisoned e hclean t
    refine iff_of_false (fun hgone => ?_) fun hup => ?_
    · rw [Trace.entryOf, hstate] at hgone
      cases hgone.symm.trans hseq
    · cases hclean.symm.trans hup.clean
  | false =>
    have hfresh' := hsane.fresh hfresh
    obtain ⟨c₁, events, hdone⟩ := turnDone e hsane.state hfresh'
    obtain ⟨planned, drawn, sent, hplan, hconcluded, -⟩ := Trace.each_next hdone id
    have hdecodes := jobs_of_closed hplan hclosed
    have hreached : ((tr.state.turn e t).1.decision.shareOf events id).prefills ≠ [] ↔
        (tr.state.enqueued t).Reached t.order t.closed id := by
      have hiff := prefillsOf_schedule_iff (s := tr.state.enqueued t) t.order hsane.state.seqId
        (waiting_enqueued hsane.state hfresh') t.closed tr.state.cache hseq
      rw [decision_turn e t hclean, LoopState.schedule, foldl_enqueue]
      exact hiff
    rw [hseq] at hplan
    obtain ⟨seq₁, rfl, -⟩ := hplan.of_some
    generalize (tr.next e t).entryOf id = after at hconcluded ⊢
    generalize (tr.state.turn e t).1.decision.shareOf events id = share at hconcluded hdecodes hreached
    rcases result_cases e hsane.state hfresh' hclean with ⟨hresult, hnone⟩ |
      ⟨htokens, ⟨logits, hresult, hok⟩ | ⟨err, hresult, herr⟩ | ⟨why, hresult, hpanic⟩⟩
    · rw [(hconcluded.still (.inl hresult)).1]
      exact iff_of_false (by simp) fun hup => hnone hup.tokens
    · refine iff_of_true ?_ ⟨hclean, htokens, .inl hok⟩
      obtain ⟨row, sampled, _, _, -, -, hcleaned, -⟩ := hconcluded.ran hresult
      cases hcleaned with
      | absent => rfl
      | keep _ hopen => cases hstays.symm.trans hopen
      | finish => rfl
      | drop => rfl
    · rcases hconcluded.failed hresult with ⟨hjobs, hafter⟩ | ⟨hjobs, hafter⟩
      · rw [hafter]
        refine iff_of_false (by simp) fun hup => ?_
        rcases hup.forward with hok | ⟨-, hin⟩
        · rw [herr] at hok
          cases hok
        · exact hreached.2 hin hjobs.1
      · refine iff_of_true hafter ⟨hclean, htokens, .inr ⟨⟨err, herr⟩, hreached.1 fun hnil => ?_⟩⟩
        exact hjobs ⟨hnil, hdecodes⟩
    · rw [(hconcluded.still (.inr hresult)).1]
      refine iff_of_false (by simp) fun hup => ?_
      rcases hup.forward with hok | ⟨⟨err, herr⟩, -⟩
      · rw [hpanic] at hok
        cases hok
      · cases hpanic.symm.trans herr

/-- A sequence that is removed has given its blocks back. -/
theorem released_iff : Released tr (tr.next e t) id seq ↔ (tr.next e t).entryOf id = none := by
  obtain ⟨c₁, events, hdone⟩ := turnDone e hsane.state (hsane.fresh hfresh)
  refine ⟨fun h => h.entry, fun hgone => ?_⟩
  obtain ⟨hhandle, hblocks⟩ := hdone.returned hseq hgone
  exact ⟨hgone, hhandle, hblocks⟩

end Turn

/-- **One iteration releases a closed sequence if and only if it gets to
it**, in every state a loop can reach. -/
theorem closed_released_iff (e : Engine R W F)
    {fresh : ℕ → ℕ → Except FractureError (List R × List R)}
    {numBlocks numLayers numKvHeads headDim : ℕ} {cache : PagedKvCacheManager R}
    (hnew : PagedKvCacheManager.new fresh numBlocks numLayers numKvHeads headDim = .ok cache)
    (maxBatchSize maxBatchTokens maxPrefillTokens : ℕ) (reservedBlocks : ℕ → ℕ)
    {turns : List (Turn F)} {t : Turn F}
    (hids : (((turns ++ [t]).flatMap (·.submitted)).map (·.seqId)).Nodup)
    {tr : Trace R F}
    (htr : tr = Trace.serve e (.new maxBatchSize maxBatchTokens maxPrefillTokens reservedBlocks)
      cache turns)
    {id : ℕ} {seq : ActiveSequence} (hseq : tr.entryOf id = some seq)
    (hclosed : t.closed id = true) (hstays : t.cleanupClosed id = true) :
    Released tr (tr.next e t) id seq ↔ CleansUp e tr.state t id := by
  obtain ⟨hbefore, hfresh⟩ := throughout_concat.1 (Trace.throughout_fresh e (Trace.start
    (.new maxBatchSize maxBatchTokens maxPrefillTokens reservedBlocks) cache) hids)
  have hsane := hbefore.invariant Trace.Sane (Trace.sane_start hnew ..) fun h h' => h.step e h'
  change _ = run _ _ _ at htr
  rw [← htr] at hsane hfresh
  rw [released_iff hsane hfresh hseq, removed_iff_cleansUp hsane hfresh hseq hclosed hstays]

/-- A turn in which no client is left, and every draw is the same token. -/
def Turn.deserted (token : ℕ) : Turn F :=
  { submitted := [], order := .stored, closed := fun _ => true, sample := fun _ _ _ => .ok token,
    cleanupOrder := .stored, cleanupClosed := fun _ => true }

/-- One prompt is submitted, and two of its tokens have run. -/
def oneClient (promptTokens : List ℕ) : Trace ℕ ℕ :=
  Trace.serve (referenceEngine 2) (.new 4 4 2 fun _ => 0) twoBlocks
    [.quiet [.greedy 7 promptTokens 4] 9]

/-- The client of a sequence past its prompt goes, and the sequence stays,
with its block. -/
theorem closed_stays :
    ((oneClient [5, 6]).entryOf 7).isSome ∧
    (((oneClient [5, 6]).next (referenceEngine 2) (.deserted 9)).entryOf 7).isSome ∧
    (oneClient [5, 6]).state.cache.numFreeBlocks = 1 ∧
    ((oneClient [5, 6]).next (referenceEngine 2) (.deserted 9)).state.cache.numFreeBlocks = 1 := by
  decide +kernel

/-- With a token of the prompt left there is a batch, and a cleanup. -/
theorem closed_released_iff_oneClient :
    ∃ seq, (oneClient [5, 6, 8]).entryOf 7 = some seq ∧
      Released (oneClient [5, 6, 8])
        ((oneClient [5, 6, 8]).next (referenceEngine 2) (.deserted 9)) 7 seq := by
  have hrunning : ((oneClient [5, 6, 8]).entryOf 7).any (·.remainingPrefill = [8]) := by
    decide +kernel
  obtain ⟨seq, hseq, hleft⟩ := (Option.any_eq_true _ _).1 hrunning
  have hids : ((([.quiet [.greedy 7 [5, 6, 8] 4] 9] ++ [.deserted 9] : List (Turn ℕ)).flatMap
      (·.submitted)).map (·.seqId)).Nodup := by decide
  have hup : CleansUp (referenceEngine 2) (oneClient [5, 6, 8]).state (.deserted 9) 7 := by
    refine ⟨by decide +kernel, ⟨by decide +kernel, by decide +kernel, .inr ⟨by decide +kernel, ?_⟩⟩,
      .inl (by decide +kernel)⟩
    refine .inl ⟨7, seq, hseq, fun hnil => ?_⟩
    rw [hnil] at hleft
    cases hleft
  exact ⟨seq, hseq, (closed_released_iff (referenceEngine 2) new_twoBlocks 4 4 2 (fun _ => 0) hids rfl
    hseq rfl rfl).2 hup⟩

end Fracture
