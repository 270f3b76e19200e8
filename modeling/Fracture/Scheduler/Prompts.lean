import Fracture.Engine.Reference
import Fracture.PagedCache.Contents
import Fracture.Scheduler.History

/-!
# Prompts go in whole and in order

A prompt is fed in chunks, as the batches have room. In every run of the
loop, whatever becomes of its forward passes, the chunks fed to a
sequence and what is left of its prompt are the prompt, the positions
count up from 0, and no decode comes before the last chunk.
-/

namespace Fracture

open Runs PagedKvCacheManager BatchScheduler

variable {R W F : Type}

/-- The jobs of a history are its prefills, and then its decodes. -/
def History.Ordered (h : History) : Prop :=
  h.jobs = h.prefills.map .prefill ++ h.decodes.map .decode

/-- How far the prompt of a running sequence has been fed. -/
structure Fed (req : PendingRequest) (seq : ActiveSequence) (h : History) : Prop where
  prompt : h.tokens ++ seq.remainingPrefill = req.promptTokens
  positions : h.positions = (List.range h.tokens.length).map asU32
  current : seq.remainingPrefill ≠ [] → seq.currentPos = h.tokens.length
  prefilling : seq.remainingPrefill ≠ [] → h.decodes = []
  ordered : h.Ordered

theorem History.tokens_plan_chunk (h : History) (id : ℕ) (seq : ActiveSequence) (n : ℕ) :
    (h.plan { prefills := [chunkJob id seq n] }).tokens =
      h.tokens ++ seq.remainingPrefill.take n := by
  simp [History.plan, History.tokens, chunkJob]

namespace Fed

variable {req : PendingRequest} {seq : ActiveSequence} {h : History}

/-- A chunk is fed. -/
theorem prefill (hfed : Fed req seq h) {n : ℕ} (hpos : 0 < n)
    (hle : n ≤ seq.remainingPrefill.length) (id : ℕ) :
    Fed req (afterChunk seq n) (h.plan { prefills := [chunkJob id seq n] }) := by
  have hne : seq.remainingPrefill ≠ [] := List.ne_nil_of_length_pos (by omega)
  have hlen : (seq.remainingPrefill.take n).length = n := by
    rw [List.length_take, Nat.min_eq_left hle]
  have htokens := h.tokens_plan_chunk id seq n
  refine ⟨?_, ?_, fun _ => ?_, fun _ => ?_, ?_⟩
  · rw [htokens, List.append_assoc, afterChunk, List.take_append_drop]
    exact hfed.prompt
  · rw [htokens, List.length_append, hlen, List.range_eq_range', ← List.range'_append_1,
      List.map_append, ← List.range_eq_range', ← hfed.positions]
    simp [History.plan, History.positions, chunkJob, hlen, hfed.current hne]
  · rw [htokens, List.length_append, afterChunk, hfed.current hne]
  · simp [History.plan, hfed.prefilling hne]
  · have hordered := hfed.ordered
    rw [History.Ordered, hfed.prefilling hne] at hordered
    simp [History.Ordered, History.plan, Share.jobs, hordered, hfed.prefilling hne]

/-- A decode comes after the prompt. -/
theorem decode (hfed : Fed req seq h) (hdone : seq.remainingPrefill = []) (job : DecodeJob) :
    Fed req seq (h.plan { decodes := [job] }) := by
  have hprompt := hfed.prompt
  have hpositions := hfed.positions
  have hordered := hfed.ordered
  refine ⟨?_, ?_, fun hne => absurd hdone hne, fun hne => absurd hdone hne, ?_⟩
  · simpa [History.plan, History.tokens] using hprompt
  · simpa [History.plan, History.tokens, History.positions] using hpositions
  · rw [History.Ordered] at hordered
    simp [History.Ordered, History.plan, Share.jobs, hordered]

/-- The first chunk of a prompt. -/
theorem first {n : ℕ} (hle : n ≤ req.promptTokens.length) (handle : CacheHandle) :
    Fed req (activate req handle n)
      (History.plan {} { prefills := [firstJob req handle n] }) := by
  have hlen : (req.promptTokens.take n).length = n := by
    rw [List.length_take, Nat.min_eq_left hle]
  refine ⟨?_, ?_, fun _ => ?_, fun _ => rfl, rfl⟩
  · simp [History.plan, History.tokens, firstJob, activate]
  · simp [History.plan, History.tokens, History.positions, firstJob]
  · simpa [History.plan, History.tokens, firstJob, activate] using hlen.symm

/-- What is drawn and sent has no part in it. -/
theorem conclude (hfed : Fed req seq h) {seq' : ActiveSequence}
    (hrem : seq'.remainingPrefill = seq.remainingPrefill)
    (hsame : seq.remainingPrefill ≠ [] → seq' = seq) (drawn : List ℕ)
    (events : List GenerationEvent) : Fed req seq' (h.conclude drawn events) := by
  refine ⟨?_, hfed.positions, fun hne => ?_, fun hne => ?_, hfed.ordered⟩
  · rw [hrem]
    exact hfed.prompt
  · rw [hrem] at hne
    rw [hsame hne]
    exact hfed.current hne
  · exact hfed.prefilling (hrem ▸ hne)

end Fed

/-- Prompts are fed in order, whatever the requests and the turns. -/
theorem fed_course : Course (F := F) (fun _ => True) (fun _ _ => True) Fed
    (fun req _ seq h => Fed req seq h) (fun _ h => h.Ordered) where
  enter _ hle _ := .first hle _
  reject _ _ := rfl
  idle hfed := hfed
  decode hfed hdone := hfed.decode hdone _
  chunk hfed hpos hle := hfed.prefill hpos hle _
  conclude {req share seq h t result drawn events after} hfed _ _ hconcluded := by
    cases after with
    | none => exact hfed.ordered
    | some seq' => exact hfed.conclude hconcluded.same.1 hconcluded.same.2 drawn events

/-- In every decision of a run, a sequence has at most one job. -/
theorem one_job_each (e : Engine R W F) {tr : Trace R F} (hsane : tr.Sane) (hnone : tr.logs = [])
    {turns : List (Turn F)} (hfresh : Throughout (Trace.next e) Trace.Fresh tr turns) :
    ∀ log ∈ (run (Trace.next e) tr turns).logs, ∀ id,
      (log.decision.prefillsOf id).length + (log.decision.decodesOf id).length ≤ 1 := by
  have hrun := hfresh.invariant (fun tr => tr.Sane ∧ ∀ log ∈ tr.logs, ∀ id,
    (log.decision.prefillsOf id).length + (log.decision.decodesOf id).length ≤ 1)
    ⟨hsane, by simp [hnone]⟩ ?_
  · exact hrun.2
  · rintro tr t ⟨hsane, hlogs⟩ hfresh
    obtain ⟨c₁, events, hdone⟩ := turnDone e hsane.state (hsane.fresh hfresh)
    refine ⟨hsane.next hdone, fun log hlog id => ?_⟩
    rcases List.mem_append.1 hlog with hlog | hlog
    · exact hlogs log hlog id
    · obtain rfl := List.mem_singleton.1 hlog
      obtain ⟨planned, drawn, sent, hplan, -⟩ := Trace.each_next hdone id
      exact hplan.length_le

section Run

variable {fresh : ℕ → ℕ → Except FractureError (List R × List R)}
  {numBlocks numLayers numKvHeads headDim : ℕ} {cache : PagedKvCacheManager R}

/-- **Prompts go in whole and in order.** In every run of the loop with
ids of their own for the requests, the chunks a running sequence was fed
and what remains are its prompt, at the positions from 0 on; its decodes
come after its prefills; and no decision holds two jobs for a sequence. -/
theorem prompts_in_order (e : Engine R W F)
    (hnew : PagedKvCacheManager.new fresh numBlocks numLayers numKvHeads headDim = .ok cache)
    (maxBatchSize maxBatchTokens maxPrefillTokens : ℕ) (reservedBlocks : ℕ → ℕ)
    {turns : List (Turn F)} (hids : ((turns.flatMap (·.submitted)).map (·.seqId)).Nodup)
    {tr : Trace R F} (htr : tr = Trace.serve e (BatchScheduler.new maxBatchSize maxBatchTokens
      maxPrefillTokens reservedBlocks) cache turns) :
    (∀ {id seq}, tr.entryOf id = some seq → ∃ req ∈ turns.flatMap (·.submitted), req.seqId = id ∧
      (tr.historyOf id).tokens ++ seq.remainingPrefill = req.promptTokens ∧
      (tr.historyOf id).positions = (List.range (tr.historyOf id).tokens.length).map asU32 ∧
      (req.promptTokens.length ≤ 2 ^ 32 →
        (tr.historyOf id).positions = List.range (tr.historyOf id).tokens.length)) ∧
    (∀ id, (tr.historyOf id).jobs = (tr.historyOf id).prefills.map .prefill ++
      (tr.historyOf id).decodes.map .decode) ∧
    ∀ log ∈ tr.logs, ∀ id,
      (log.decision.prefillsOf id).length + (log.decision.decodesOf id).length ≤ 1 := by
  have hrun := fed_course.serve e hnew maxBatchSize maxBatchTokens maxPrefillTokens reservedBlocks
    hids (fun _ _ => trivial) (throughout_of_forall fun _ _ => trivial)
  have hkept : ∀ {req seq h}, Kept Fed (fun req _ seq h => Fed req seq h) tr.state.poisoned req seq h →
      Fed req seq h := by
    rintro req seq h (hfed | ⟨-, -, hfed⟩)
    · exact hfed
    · exact hfed
  rw [← htr] at hrun
  refine ⟨fun {id seq} hseq => ?_, fun id => ?_, ?_⟩
  · obtain ⟨req, hmem, hid, hfed⟩ := (hrun.2 id).of_running hseq
    replace hfed := hkept hfed
    rw [htr, Trace.serve, Trace.submitted_run] at hmem
    refine ⟨req, hmem, hid, hfed.prompt, hfed.positions, fun hshort => ?_⟩
    have hlen := congrArg List.length hfed.prompt
    rw [List.length_append] at hlen
    have hid : ∀ n ∈ List.range (tr.historyOf id).tokens.length, asU32 n = n := by
      intro n hn
      rw [List.mem_range] at hn
      exact Nat.mod_eq_of_lt (by omega)
    rw [hfed.positions, List.map_congr_left hid, List.map_id']
  · exact (hrun.2 id).of_all (T := History.Ordered) rfl (fun hfed => (hkept hfed).ordered)
      fun h => h
  · rw [htr]
    exact one_job_each e (Trace.sane_start hnew ..) rfl (Trace.throughout_fresh e _ hids)

end Run

/-- A prompt of three tokens comes in. -/
def onePrompt : List (Turn ℕ) := [.quiet [.greedy 7 [5, 6, 8] 2] 9]

/-- A batch takes two of them. -/
theorem prompts_in_order_onePrompt :
    ∃ seq, (Trace.serve (referenceEngine 2) (BatchScheduler.new 4 4 2 fun _ => 0) twoBlocks
        onePrompt).entryOf 7 = some seq ∧
      [5, 6] ++ seq.remainingPrefill = [5, 6, 8] := by
  have hrunning : ((Trace.serve (referenceEngine 2) (BatchScheduler.new 4 4 2 fun _ => 0) twoBlocks
      onePrompt).entryOf 7).isSome := by decide +kernel
  obtain ⟨seq, hseq⟩ := Option.isSome_iff_exists.1 hrunning
  have hids : ((onePrompt.flatMap (·.submitted)).map (·.seqId)).Nodup := by decide
  obtain ⟨req, hmem, -, hprompt, -⟩ := (prompts_in_order (referenceEngine 2) new_twoBlocks 4 4 2
    (fun _ => 0) hids rfl).1 hseq
  obtain rfl := List.mem_singleton.1 hmem
  exact ⟨seq, hseq, hprompt⟩

end Fracture
