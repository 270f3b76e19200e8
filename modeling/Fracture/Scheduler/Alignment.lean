import Fracture.Engine.Lengths
import Fracture.Scheduler.Decoding
import Fracture.Scheduler.Fill

/-!
# Positions and cached lengths

In a run whose passes come through, the cache of a running sequence has a
row for every token that its decisions have fed to it. The position of a
decode is compared with that length here, and with the position at which
a single generation feeds the same token. It is one ahead of both.
-/

namespace Fracture

open Assoc Effect Runs PagedKvCacheManager BatchScheduler

variable {R W F : Type}

/-- The passes of a turn that ran came through. -/
def ForwardResult.Passed : ForwardResult F → Prop
  | .notRun | .logits _ => True
  | .failed _ | .panicked => False

/-! ## The lengths after a turn -/

section Lengths

variable {s s' : BatchScheduler} {closed : ℕ → Bool} {c c' : PagedKvCacheManager R}
  {d : SchedulerDecision} {events : List (ℕ × GenerationEvent)} {id : ℕ} {seq : ActiveSequence}

/-- The rows a batch has for a running sequence are its tokens in the
decision. -/
theorem BatchScheduler.Planned.sum_parts (h : Planned s closed c d s' c' events)
    (hseq : s'.active.lookup id = some seq) :
    (((((batchEntries s' d).map (·.slice)).map fun s => (s.handle, s.tokenIds.length)).filter
      (·.1 = seq.handle)).map (·.2)).sum = d.tokensOf id := by
  by_cases hentry : ∃ entry ∈ batchEntries s' d, entry.seqId = id
  · obtain ⟨entry, hmem, rfl⟩ := hentry
    obtain ⟨seq', hof⟩ := h.entryOf hmem
    cases hseq.symm.trans hof.lookup
    rw [← hof.handle, ← hof.tokens]
    refine sum_parts_of_mem ?_ (List.mem_map.2 ⟨_, List.mem_map_of_mem hmem, rfl⟩)
    rw [List.map_map]
    exact h.nodup_handles
  · have hnone : ∀ entry ∈ batchEntries s' d, entry.seqId ≠ id := by
      intro entry hmem heq
      exact hentry ⟨entry, hmem, heq⟩
    have hempty : d.prefillsOf id = [] ∧ d.decodesOf id = [] :=
      ⟨not_not.1 fun hne => hentry (h.exists_entry (.inl hne)),
        not_not.1 fun hne => hentry (h.exists_entry (.inr hne))⟩
    have hzero : d.tokensOf id = 0 := by
      rw [SchedulerDecision.tokensOf, hempty.1, hempty.2]
      rfl
    rw [hzero]
    refine sum_parts_of_notMem ?_
    rw [List.map_map]
    exact h.handle_notMem hseq hnone

/-- Without a token to run, every sequence has none. -/
theorem BatchScheduler.Planned.tokensOf_of_notRun (h : Planned s closed c d s' c' events)
    (hnone : d.totalTokens = 0 ∨ batchEntries s' d = []) (id : ℕ) : d.tokensOf id = 0 := by
  obtain ⟨hdecodes, hprefills⟩ := h.empty_of_notRun id hnone
  have hflat : (d.shareOf events id).prefills.flatMap (·.tokenIds) = [] :=
    List.flatMap_eq_nil_iff.2 hprefills
  rw [d.tokensOf_eq_of_shareOf rfl, hflat, hdecodes]
  rfl

variable {e : Engine R W F} {t : Turn F} {st : LoopState R}

/-- **A turn moves the cached length of a sequence on by its tokens.** -/
theorem lens_turn (hb : e.backend.Sound) (hrange : e.layerRange.start < e.layerRange.stop)
    (hsane : st.Sane) (hfresh : t.Fresh st) (hclean : st.poisoned = false)
    (hpassed : (st.turn e t).1.result.Passed)
    (hseq : (st.turn e t).2.scheduler.active.lookup id = some seq) :
    (st.turn e t).2.cache.lenOf seq.handle =
      ((st.schedule t).2.cache.lenOf seq.handle).map
        (· + (st.turn e t).1.decision.tokensOf id) := by
  obtain ⟨events, -, -, hplanned⟩ := schedule_planned hsane hfresh
  generalize hd : (st.schedule t).1 = d at *
  generalize hst₁ : (st.schedule t).2 = st₁ at *
  rcases turn_cases e t hclean (Prod.ext hd hst₁) with ⟨hnone, hturn⟩ |
    ⟨-, ⟨logits, c₂, hok, hturn⟩ | ⟨err, c₂, -, hturn⟩ | ⟨why, c₂, -, hturn⟩⟩
  · rw [hturn, hplanned.tokensOf_of_notRun hnone id]
    exact (Option.map_id' ..).symm
  · have hlen := length_batchedForward hok
    rw [List.length_map] at hlen
    have htouched := batchedForward_within e.weights e.layerRange e.backend
      ((batchEntries st₁.scheduler d).map (·.slice)) st₁.cache hplanned.accounted
    rw [hok, state_ok] at htouched
    obtain ⟨row, sampled, sent, sent', -, -, hsampled, hcleaned⟩ := finishTurn_each t
      { st₁ with cache := c₂ } hlen hplanned.nodup_entries hplanned.decoding_entries id
    obtain ⟨hhoused, ⟨handles, hfreed⟩, -, -⟩ := finishTurn_housed t { st₁ with cache := c₂ }
      (hplanned.toHoused.congr htouched.live) (batchEntries st₁.scheduler d) logits
    rw [hturn] at hseq ⊢
    rw [hseq] at hcleaned
    cases hcleaned
    obtain ⟨planned, hlookup, -, hhandle, -⟩ := hsampled.same rfl
    -- a sequence that stays is not among those freed
    have hkept : seq.handle ∉ handles := by
      intro hmem
      have hlive := hhoused.live hseq
      rw [hfreed.gone _ hmem] at hlive
      cases hlive
    have hlens := lens_of_batchedForward hb hrange hplanned.accounted hok seq.handle
    rw [hhandle, hplanned.sum_parts hlookup] at hlens
    rw [hfreed.lenOf_eq hkept, hhandle]
    exact hlens
  · rw [hturn] at hpassed
    exact hpassed.elim
  · rw [hturn] at hpassed
    exact hpassed.elim

end Lengths

/-! ## Whether there are decodes -/

namespace BatchScheduler

variable {s : BatchScheduler}

/-- **When a decision has decodes.** -/
theorem decodes_schedule_eq_nil
    (hids : ∀ {id seq}, s.active.lookup id = some seq → seq.seqId = id) (order : IterOrder)
    (closed : ℕ → Bool) (c : PagedKvCacheManager R) :
    (s.schedule order closed c).1.decodes = [] ↔
      s.maxBatchSize = 0 ∨ s.maxBatchTokens = 0 ∨ ¬ s.Decodable closed := by
  obtain ⟨-, hlength, -⟩ := length_decoded order hids closed c
  rw [decodes_schedule, ← List.length_eq_zero_iff, hlength, s.decodable_iff order hids]
  omega

end BatchScheduler

/-! ## The lengths over a run -/

/-- The tokens fed to a sequence. -/
def History.fedLen (h : History) : ℕ := h.tokens.length + h.decodes.length

theorem History.fedLen_conclude (h : History) (share : Share) (drawn : List ℕ)
    (events : List GenerationEvent) :
    ((h.plan share).conclude drawn events).fedLen =
      h.fedLen + ((share.prefills.flatMap (·.tokenIds)).length + share.decodes.length) := by
  simp only [fedLen, plan, conclude, tokens, List.flatMap_append, List.length_append]
  omega

namespace Trace

variable {e : Engine R W F} {tr : Trace R F} {t : Turn F}

/-- Every running sequence has a cached row for each token fed to it. -/
def Measured (tr : Trace R F) : Prop :=
  ∀ id seq, tr.entryOf id = some seq →
    tr.state.cache.lenOf seq.handle = some (tr.historyOf id).fedLen

variable {P : PendingRequest → ActiveSequence → History → Prop}
  {M : PendingRequest → Share → ActiveSequence → History → Prop}
  {Q : PendingRequest → History → Prop}

/-- A request that is still to be admitted has no history. -/
theorem historyOf_of_queued (hfresh : tr.Fresh t) (hon : tr.OnCourse P M Q) {req : PendingRequest}
    (hreq : req ∈ (tr.state.enqueued t).prefillQueue) (hentry : tr.entryOf req.seqId = none) :
    tr.historyOf req.seqId = {} := by
  have hprogress := hon req.seqId
  rw [hentry] at hprogress
  generalize tr.historyOf req.seqId = h at hprogress ⊢
  cases hprogress with
  | unborn => rfl
  | ended hmem hid hqueue _ =>
    -- an id that is over is not in the queue, and is not used again
    rcases List.mem_append.1 hreq with hreq | hreq
    · exact absurd rfl (hqueue req hreq)
    · exact absurd hid (hfresh.ne hmem hreq)

/-- **A turn keeps the lengths right.** -/
theorem Measured.next (hb : e.backend.Sound) (hrange : e.layerRange.start < e.layerRange.stop)
    (hsane : tr.Sane) (hfresh : tr.Fresh t) (hclean : tr.state.poisoned = false)
    (hon : tr.OnCourse P M Q) (hpassed : (tr.state.turn e t).1.result.Passed) (h : tr.Measured) :
    (tr.next e t).Measured := by
  intro id seq' hseq'
  obtain ⟨events, hdone⟩ := turnDone_of_clean e hsane.state (hsane.fresh hfresh) hclean
  obtain ⟨planned, drawn, sent, hplan, hconcluded, hhistory⟩ := each_next hdone id
  rw [hseq'] at hconcluded
  obtain ⟨seq₁, rfl, hhandle⟩ := hconcluded.handle_eq
  have hturn : (tr.next e t).state.cache.lenOf seq'.handle = _ :=
    lens_turn hb hrange hsane.state (hsane.fresh hfresh) hclean hpassed hseq'
  have htokens : (tr.state.turn e t).1.decision.tokensOf id =
      (((tr.state.turn e t).1.decision.shareOf events id).prefills.flatMap (·.tokenIds)).length +
        ((tr.state.turn e t).1.decision.shareOf events id).decodes.length := rfl
  rw [hturn, hhistory, History.fedLen_conclude, ← htokens]
  -- what is left is the length before the pass
  have hbefore : (tr.state.schedule t).2.cache.lenOf seq'.handle =
      some (tr.historyOf id).fedLen := by
    rw [hhandle]
    cases hentry : tr.entryOf id with
    | some seq =>
      rw [hentry] at hplan
      obtain ⟨seq₂, hseq₂, hsame⟩ := hplan.of_some
      cases hseq₂
      have hlive : (tr.state.cache.lenOf seq.handle).isSome := hsane.state.live hentry
      rw [hsame, hdone.widened.lens hlive]
      exact h id seq hentry
    | none =>
      rw [hentry] at hplan
      generalize (tr.state.turn e t).1.decision.shareOf events id = share at hplan
      cases hplan with
      | enter hmem hid hle hpos hnew hlive =>
        subst hid
        rw [historyOf_of_queued hfresh hon hmem hentry]
        exact hlive
  rw [hbefore]
  rfl

/-! ## Decodes -/

/-- What is known of a run between turns: no pass has failed, and every
sequence is counted and measured. -/
structure Sound (tr : Trace R F) : Prop where
  sane : tr.Sane
  up : tr.state.poisoned = false
  course : tr.OnCourse Spoken Voiced fun _ _ => True
  measured : tr.Measured

/-- **What a decode of a run is**: the sequence has a cached row for each
token of its prompt and each decode before, the token is the next one of
those drawn, and the position is one ahead of the length. -/
theorem Sound.of_mem_decodes (h : tr.Sound) (hfresh : tr.Fresh t) {dj : DecodeJob}
    (hdj : dj ∈ (tr.state.turn e t).1.decision.decodes) :
    ∃ req ∈ tr.submitted, req.seqId = dj.seqId ∧
      tr.state.cache.lenOf dj.handle =
        some (req.promptTokens.length + (tr.historyOf dj.seqId).decodes.length) ∧
      (tr.historyOf dj.seqId).drawn[(tr.historyOf dj.seqId).decodes.length]? = some dj.tokenId ∧
      dj.position =
        asU32 (req.promptTokens.length + (tr.historyOf dj.seqId).decodes.length + 1) ∧
      (generateDecodes req (tr.historyOf dj.seqId).drawn)[
          (tr.historyOf dj.seqId).decodes.length]? =
        some (dj.tokenId,
          asU32 (req.promptTokens.length + (tr.historyOf dj.seqId).decodes.length)) := by
  obtain ⟨req, hmem, hid, seq, hentry, hdoneSeq, hjob, hspoken⟩ :=
    h.course.of_mem_decodes h.sane hfresh h.up hdj
  have hlen := h.measured dj.seqId seq hentry
  generalize tr.historyOf dj.seqId = hist at hspoken hlen ⊢
  have hprompt : hist.tokens.length = req.promptTokens.length := by
    have hwhole := hspoken.fed.prompt
    rw [hdoneSeq, List.append_nil] at hwhole
    rw [hwhole]
  have hahead := hspoken.ahead hdoneSeq
  have hhandle : dj.handle = seq.handle := by rw [hjob]; rfl
  have htoken : hist.drawn[hist.decodes.length]? = some dj.tokenId := by
    rw [hjob]
    exact hspoken.tokenId_decodeJob hdoneSeq _
  have hposition : dj.position = asU32 (req.promptTokens.length + hist.decodes.length + 1) := by
    rw [hjob, decodeJob, hspoken.current, hahead, hprompt, Nat.add_assoc]
  refine ⟨req, hmem, hid, ?_, htoken, hposition, ?_⟩
  · rw [hhandle, hlen, History.fedLen, hprompt]
  · have hne : hist.drawn ≠ [] := by
      intro hnil
      rw [hnil] at hahead
      cases hahead
    have hlimit := hspoken.limit hne
    have hgoing := hspoken.going
    obtain ⟨first, rest, hdrawn⟩ := List.exists_cons_of_ne_nil hne
    rw [hdrawn] at hlimit hgoing htoken hahead ⊢
    rw [List.length_cons] at hlimit hahead
    have hrest : ∀ token ∈ rest, token ∉ req.stopTokens := by
      intro token hmem
      exact hgoing token (List.mem_cons_of_mem _ hmem)
    have hpasses : hist.decodes.length < req.maxTokens - 1 := by omega
    rw [generateDecodes, if_neg (hgoing first List.mem_cons_self),
      getElem?_decodeFeed _ _ first hrest hpasses (by omega), htoken]
    rfl

/-- The decodes of a turn are those of a single generation: each is at the
cached length of its sequence, which is the length of the prompt and the
decodes before, and feeds the next of the tokens drawn. -/
def Aligned (e : Engine R W F) (tr : Trace R F) (t : Turn F) : Prop :=
  ∀ dj ∈ (tr.state.turn e t).1.decision.decodes,
    tr.state.cache.lenOf dj.handle = some dj.position ∧
      ∃ req ∈ tr.submitted, req.seqId = dj.seqId ∧
        dj.position = req.promptTokens.length + (tr.historyOf dj.seqId).decodes.length ∧
        (tr.historyOf dj.seqId).drawn[(tr.historyOf dj.seqId).decodes.length]? =
          some dj.tokenId ∧
        (generateDecodes req (tr.historyOf dj.seqId).drawn)[
          (tr.historyOf dj.seqId).decodes.length]? = some (dj.tokenId, dj.position)

/-- No decode is due: the batch has no room at all, or no open sequence is
past its prompt. -/
def Undecoded (tr : Trace R F) (t : Turn F) : Prop :=
  tr.state.scheduler.maxBatchSize = 0 ∨ tr.state.scheduler.maxBatchTokens = 0 ∨
    ¬ tr.state.scheduler.Decodable t.closed

/-- One position ahead is never the length itself. -/
theorem asU32_succ_ne (n : ℕ) : asU32 (n + 1) ≠ n := by
  unfold asU32
  omega

/-- A turn is aligned exactly when it has no decode. -/
theorem Sound.aligned_iff (h : tr.Sound) (hfresh : tr.Fresh t) :
    Aligned e tr t ↔ tr.Undecoded t := by
  have hdecision : (tr.state.turn e t).1.decision.decodes = [] ↔ tr.Undecoded t := by
    rw [decision_turn e t h.up, LoopState.schedule, foldl_enqueue]
    exact decodes_schedule_eq_nil (s := tr.state.enqueued t) h.sane.state.seqId t.order t.closed
      tr.state.cache
  rw [← hdecision]
  constructor
  · intro haligned
    refine List.eq_nil_iff_forall_not_mem.2 fun dj hdj => ?_
    obtain ⟨req, -, -, hlen, -, hposition, -⟩ := h.of_mem_decodes hfresh hdj
    have hsame := Option.some_inj.1 (hlen.symm.trans (haligned dj hdj).1)
    rw [hposition] at hsame
    exact asU32_succ_ne _ hsame.symm
  · intro hnil dj hdj
    rw [hnil] at hdj
    cases hdj

/-- **A turn keeps a run sound.** -/
theorem Sound.next (hb : e.backend.Sound) (hrange : e.layerRange.start < e.layerRange.stop)
    (h : tr.Sound) (hfresh : tr.Fresh t)
    (hprompts : ∀ req ∈ tr.submitted ++ t.submitted, req.promptTokens ≠ [])
    (hpassed : (tr.state.turn e t).1.result.Passed) : (tr.next e t).Sound := by
  obtain ⟨events, hdone⟩ := turnDone_of_clean e h.sane.state (h.sane.fresh hfresh) h.up
  have hup : (tr.next e t).state.poisoned = false := by
    rw [Bool.eq_false_iff]
    intro hdown
    rcases hdone.poisoned.1 hdown with hold | hpanic
    · rw [h.up] at hold
      cases hold
    · rw [hpanic] at hpassed
      exact hpassed
  exact ⟨h.sane.next hdone, hup, spoken_course.step h.sane hfresh hprompts trivial h.course,
    h.measured.next hb hrange h.sane hfresh h.up h.course hpassed⟩

end Trace

section Run

variable {fresh : ℕ → ℕ → Except FractureError (List R × List R)}
  {numBlocks numLayers numKvHeads headDim : ℕ} {cache : PagedKvCacheManager R}

theorem Trace.sound_start
    (hnew : PagedKvCacheManager.new fresh numBlocks numLayers numKvHeads headDim = .ok cache)
    (maxBatchSize maxBatchTokens maxPrefillTokens : ℕ) (reservedBlocks : ℕ → ℕ) :
    (Trace.start (BatchScheduler.new maxBatchSize maxBatchTokens maxPrefillTokens reservedBlocks)
      cache : Trace R F).Sound where
  sane := Trace.sane_start hnew ..
  up := rfl
  course := fun _ => .unborn
  measured := nofun

/-- **Decodes are where a single generation has them** in every turn of a
run exactly when no turn has a decode: the position of each one is one
ahead. -/
theorem decodes_aligned_iff (e : Engine R W F) (hb : e.backend.Sound)
    (hrange : e.layerRange.start < e.layerRange.stop)
    (hnew : PagedKvCacheManager.new fresh numBlocks numLayers numKvHeads headDim = .ok cache)
    (maxBatchSize maxBatchTokens maxPrefillTokens : ℕ) (reservedBlocks : ℕ → ℕ)
    (turns : List (Turn F)) (hids : ((turns.flatMap (·.submitted)).map (·.seqId)).Nodup)
    (hprompts : ∀ req ∈ turns.flatMap (·.submitted), req.promptTokens ≠ [])
    (hpassed : Throughout (Trace.next e) (fun tr t => (tr.state.turn e t).1.result.Passed)
      (Trace.start (BatchScheduler.new maxBatchSize maxBatchTokens maxPrefillTokens
        reservedBlocks) cache) turns) :
    Throughout (Trace.next e) (Trace.Aligned e) (Trace.start (BatchScheduler.new maxBatchSize
        maxBatchTokens maxPrefillTokens reservedBlocks) cache) turns ↔
      Throughout (Trace.next e) Trace.Undecoded (Trace.start (BatchScheduler.new maxBatchSize
        maxBatchTokens maxPrefillTokens reservedBlocks) cache) turns := by
  have hfresh := Trace.throughout_fresh e (Trace.start (BatchScheduler.new maxBatchSize
    maxBatchTokens maxPrefillTokens reservedBlocks) cache) hids
  have hsubmitted : ∀ t ∈ turns, ∀ req ∈ t.submitted, req.promptTokens ≠ [] :=
    List.forall_mem_flatMap.1 hprompts
  have hsteps := hfresh.and ((throughout_of_forall hsubmitted).and hpassed)
  refine hsteps.iff (fun tr => tr.Sound ∧ ∀ req ∈ tr.submitted, req.promptTokens ≠ [])
    ⟨Trace.sound_start hnew .., by simp [Trace.start, Trace.submitted]⟩ ?_ ?_
  · rintro tr t ⟨hsound, hold⟩ ⟨hfresh, hnewPrompts, hpassed⟩
    have hall : ∀ req ∈ tr.submitted ++ t.submitted, req.promptTokens ≠ [] :=
      List.forall_mem_append.2 ⟨hold, hnewPrompts⟩
    exact ⟨hsound.next hb hrange hfresh hall hpassed, by rwa [Trace.submitted_next]⟩
  · rintro tr t ⟨hsound, -⟩ ⟨hfresh, -⟩
    exact hsound.aligned_iff hfresh

end Run

instance (result : ForwardResult F) : Decidable result.Passed :=
  match result with
  | .notRun => .isTrue trivial
  | .logits _ => .isTrue trivial
  | .failed _ => .isFalse id
  | .panicked => .isFalse id

/-- A prompt of three tokens, with the same token drawn in every turn. -/
def repeating (maxTokens turns : ℕ) : List (Turn ℕ) :=
  .quiet [.greedy 7 [5, 6, 8] maxTokens] 9 :: List.replicate turns (.quiet [] 9)

/-- After the prompt its sequence has three cached rows. Its decodes are at
positions 4 and 5, where a single generation has 3 and 4. -/
theorem decodes_ahead :
    Throughout (Trace.next (referenceEngine 2))
        (fun tr t => (tr.state.turn (referenceEngine 2) t).1.result.Passed)
        (Trace.start (BatchScheduler.new 4 8 8 fun _ => 0) twoBlocks) (repeating 4 2) ∧
      ((Trace.serve (referenceEngine 2) (BatchScheduler.new 4 8 8 fun _ => 0) twoBlocks
        (repeating 4 2)).logs.map fun log =>
          log.decision.decodes.map fun dj => (dj.tokenId, dj.position)) =
        [[], [(9, 4)], [(9, 5)]] ∧
      (((Trace.serve (referenceEngine 2) (BatchScheduler.new 4 8 8 fun _ => 0) twoBlocks
        (repeating 4 0)).entryOf 7).bind fun seq => (Trace.serve (referenceEngine 2)
          (BatchScheduler.new 4 8 8 fun _ => 0) twoBlocks (repeating 4 0)).state.cache.lenOf
            seq.handle) = some 3 ∧
      generateDecodes (.greedy 7 [5, 6, 8] 4) [9, 9, 9] = [(9, 3), (9, 4), (9, 5)] := by
  decide +kernel

/-- With one token to draw there is nothing to feed back. -/
theorem decodes_aligned_iff_oneToken :
    Throughout (Trace.next (referenceEngine 2))
        (fun tr t => (tr.state.turn (referenceEngine 2) t).1.result.Passed)
        (Trace.start (BatchScheduler.new 4 8 8 fun _ => 0) twoBlocks) (repeating 1 1) ∧
      (Throughout (Trace.next (referenceEngine 2)) (Trace.Aligned (referenceEngine 2))
          (Trace.start (BatchScheduler.new 4 8 8 fun _ => 0) twoBlocks) (repeating 1 1) ↔
        Throughout (Trace.next (referenceEngine 2)) Trace.Undecoded
          (Trace.start (BatchScheduler.new 4 8 8 fun _ => 0) twoBlocks) (repeating 1 1)) := by
  refine ⟨?passed, decodes_aligned_iff (referenceEngine 2) referenceBackend_reliable.toSound
    (by decide) new_twoBlocks 4 8 8 (fun _ => 0) (repeating 1 1) (by decide) (by decide) ?passed⟩
  decide +kernel

end Fracture
