import Fracture.Scheduler.Prompts

/-!
# Tokens fed back

A sequence whose prompt is through has one token more than decodes: the
last one drawn is still to be fed. Its position counter has been moved on
for that token already, so the decode that feeds it is one position
ahead of where a single generation feeds the same token.

All this is about prompts that are not empty: a sequence that starts
without a token is past its prompt with nothing drawn.
-/

namespace Fracture

open Runs PagedKvCacheManager BatchScheduler

variable {R W F : Type}

/-! ## A single generation -/

/-- The decode loop of a single generation: a token is fed at its
position, and the next one drawn goes on, for so many passes at most. -/
def decodeFeed (stopTokens : List ℕ) : ℕ → ℕ → ℕ → List ℕ → List (ℕ × ℕ)
  | 0, _, _, _ => []
  | _ + 1, next, pos, [] => [(next, pos)]
  | n + 1, next, pos, token :: drawn =>
    (next, pos) ::
      if token ∈ stopTokens then [] else decodeFeed stopTokens n token (asU32 (pos + 1)) drawn

/-- What a single generation feeds back, with positions, when these tokens
are drawn one after the other. -/
def generateDecodes (req : PendingRequest) : List ℕ → List (ℕ × ℕ)
  | [] => []
  | first :: drawn =>
    if first ∈ req.stopTokens then []
    else decodeFeed req.stopTokens (req.maxTokens - 1) first (asU32 req.promptTokens.length) drawn

theorem asU32_succ (n : ℕ) : asU32 (asU32 n + 1) = asU32 (n + 1) := by
  unfold asU32
  omega

/-- As long as no token stops it, a generation feeds the tokens in turn. -/
theorem getElem?_decodeFeed {stopTokens : List ℕ} {k : ℕ} (pos n next : ℕ) {drawn : List ℕ}
    (hgoing : ∀ token ∈ drawn, token ∉ stopTokens) (hlimit : k < n) (hdrawn : k ≤ drawn.length) :
    (decodeFeed stopTokens n next (asU32 pos) drawn)[k]? =
      (next :: drawn)[k]?.map fun token => (token, asU32 (pos + k)) := by
  induction drawn generalizing k pos n next with
  | nil =>
    obtain rfl : k = 0 := Nat.le_zero.1 hdrawn
    obtain ⟨n, rfl⟩ := Nat.exists_eq_add_of_lt hlimit
    rw [Nat.zero_add]
    rfl
  | cons token drawn ih =>
    obtain ⟨m, rfl⟩ : ∃ m, n = m + 1 := ⟨n - 1, by omega⟩
    rw [decodeFeed, if_neg (hgoing token List.mem_cons_self)]
    cases k with
    | zero => rfl
    | succ k =>
      have hrest : ∀ token ∈ drawn, token ∉ stopTokens := by
        intro token htoken
        exact hgoing token (List.mem_cons_of_mem _ htoken)
      have hlen : k ≤ drawn.length := by
        rw [List.length_cons] at hdrawn
        omega
      rw [List.getElem?_cons_succ, List.getElem?_cons_succ, asU32_succ,
        ih (pos + 1) m token hrest (by omega) hlen, Nat.add_assoc, Nat.add_comm 1 k]

/-! ## The course of a sequence -/

variable {seq : ActiveSequence}

/-- A sequence that goes on is below its limit, and its last token does not
stop it. -/
theorem lt_of_finished_eq_none (h : finished seq = none) :
    seq.generatedTokens.length < seq.maxTokens ∧
      ∀ last, seq.generatedTokens.getLast? = some last → last ∉ seq.stopTokens := by
  unfold finished at h
  split at h
  · cases h
  · next hlt =>
    refine ⟨Nat.lt_of_not_le hlt, fun last hlast hmem => ?_⟩
    rw [hlast] at h
    dsimp only at h
    rw [if_pos hmem] at h
    cases h

/-- The counters of a running sequence, against its history. -/
structure Counted (req : PendingRequest) (seq : ActiveSequence) (h : History) : Prop where
  fed : Fed req seq h
  drawn : seq.generatedTokens = h.drawn
  current : seq.currentPos = h.tokens.length + h.drawn.length
  waiting : seq.remainingPrefill ≠ [] → h.drawn = []
  going : ∀ token ∈ h.drawn, token ∉ req.stopTokens
  limit : h.drawn ≠ [] → h.drawn.length < req.maxTokens
  stopTokens : seq.stopTokens = req.stopTokens
  maxTokens : seq.maxTokens = req.maxTokens

/-- Between turns: the last token drawn is still to be fed. -/
structure Spoken (req : PendingRequest) (seq : ActiveSequence) (h : History) : Prop extends
    Counted req seq h where
  ahead : seq.remainingPrefill = [] → h.drawn.length = h.decodes.length + 1

/-- The token of a decode is the one of those drawn that is still to be
fed. -/
theorem Spoken.tokenId_decodeJob {req : PendingRequest} {h : History} (hspoken : Spoken req seq h)
    (hdone : seq.remainingPrefill = []) (id : ℕ) :
    h.drawn[h.decodes.length]? = some (decodeJob id seq).tokenId := by
  have hahead := hspoken.ahead hdone
  have hlast : h.drawn.getLast? = h.drawn[h.decodes.length]? := by
    rw [List.getLast?_eq_getElem?, hahead, Nat.add_sub_cancel]
  have hsome : h.decodes.length < h.drawn.length := by omega
  rw [decodeJob, hspoken.drawn, hlast, List.getElem?_eq_getElem hsome, Option.getD_some]

/-- A share with a token in it. -/
def Share.HasToken (share : Share) : Prop :=
  share.decodes ≠ [] ∨ ∃ pf ∈ share.prefills, pf.tokenIds ≠ []

theorem Share.HasToken.has_job {share : Share} (h : share.HasToken) :
    ¬ (share.prefills = [] ∧ share.decodes = []) := by
  rintro ⟨hprefills, hdecodes⟩
  rcases h with hne | ⟨pf, hpf, -⟩
  · exact hne hdecodes
  · rw [hprefills] at hpf
    cases hpf

/-- In a turn: a sequence with a job has every token fed. -/
def Voiced (req : PendingRequest) (share : Share) (seq : ActiveSequence) (h : History) : Prop :=
  (share.prefills = [] ∧ share.decodes = [] ∧ Spoken req seq h) ∨
    (share.HasToken ∧ Counted req seq h ∧
      (seq.remainingPrefill = [] → h.drawn.length = h.decodes.length))

namespace Counted

variable {req : PendingRequest} {seq : ActiveSequence} {h : History}

/-- A chunk of the prompt moves the counter on by its tokens. -/
theorem prefill (hcounted : Counted req seq h) {n : ℕ} (hpos : 0 < n)
    (hle : n ≤ seq.remainingPrefill.length) (id : ℕ) :
    Counted req (afterChunk seq n) (h.plan { prefills := [chunkJob id seq n] }) := by
  have hne : seq.remainingPrefill ≠ [] := List.ne_nil_of_length_pos (by omega)
  have hnone := hcounted.waiting hne
  have htokens := h.tokens_plan_chunk id seq n
  refine ⟨hcounted.fed.prefill hpos hle id, hcounted.drawn, ?_, fun _ => hnone, hcounted.going,
    hcounted.limit, hcounted.stopTokens, hcounted.maxTokens⟩
  have hmoved : (afterChunk seq n).currentPos =
    seq.currentPos + (seq.remainingPrefill.take n).length := rfl
  have hdrawn : (h.plan { prefills := [chunkJob id seq n] }).drawn = h.drawn := rfl
  rw [htokens, List.length_append, hmoved, hcounted.current, hdrawn]
  omega

theorem decode (hcounted : Counted req seq h) (hdone : seq.remainingPrefill = [])
    (job : DecodeJob) : Counted req seq (h.plan { decodes := [job] }) := by
  have htokens : (h.plan { decodes := [job] }).tokens = h.tokens := by
    simp [History.plan, History.tokens]
  refine ⟨hcounted.fed.decode hdone job, hcounted.drawn, ?_, hcounted.waiting, hcounted.going,
    hcounted.limit, hcounted.stopTokens, hcounted.maxTokens⟩
  rw [htokens]
  exact hcounted.current

theorem first {n : ℕ} (hle : n ≤ req.promptTokens.length) (handle : CacheHandle) :
    Counted req (activate req handle n)
      (History.plan {} { prefills := [firstJob req handle n] }) := by
  have htokens : (History.plan {} { prefills := [firstJob req handle n] }).tokens =
      req.promptTokens.take n := by
    simp [History.plan, History.tokens, firstJob]
  refine ⟨.first hle handle, rfl, ?_, fun _ => rfl, ?_, ?_, rfl, rfl⟩
  · rw [htokens, List.length_take, Nat.min_eq_left hle]
    rfl
  · intro token htoken
    cases htoken
  · intro hne
    exact absurd rfl hne

variable (hcounted : Counted req seq h) (events : List GenerationEvent)
include hcounted

/-- A token is drawn, and the sequence goes on. -/
theorem draw (hdone : seq.remainingPrefill = []) {token : ℕ}
    (hgoing : finished (pushToken seq token) = none) :
    Counted req (pushToken seq token) (h.conclude [token] events) := by
  obtain ⟨hlength, hlast⟩ := lt_of_finished_eq_none hgoing
  have hstop : token ∉ seq.stopTokens := hlast token List.getLast?_concat
  change (seq.generatedTokens ++ [token]).length < seq.maxTokens at hlength
  rw [hcounted.drawn, hcounted.maxTokens] at hlength
  rw [hcounted.stopTokens] at hstop
  have hfed : Fed req (pushToken seq token) (h.conclude [token] events) := by
    refine hcounted.fed.conclude ?_ (fun hne => absurd hdone hne) _ _
    rfl
  refine ⟨hfed, ?_, ?_, fun hne => absurd hdone hne, ?_, fun _ => hlength, hcounted.stopTokens,
    hcounted.maxTokens⟩
  · exact congrArg (· ++ [token]) hcounted.drawn
  · change seq.currentPos + 1 = h.tokens.length + (h.drawn ++ [token]).length
    rw [hcounted.current, List.length_append, List.length_singleton, Nat.add_assoc]
  · exact List.forall_mem_append.2 ⟨hcounted.going, List.forall_mem_singleton.2 hstop⟩

/-- Events alone change nothing. -/
theorem notify : Counted req seq (h.conclude [] events) := by
  have hfed : Fed req seq (h.conclude [] events) := hcounted.fed.conclude rfl (fun _ => rfl) _ _
  have hdrawn : (h.conclude [] events).drawn = h.drawn := List.append_nil _
  refine ⟨hfed, ?_, ?_, ?_, ?_, ?_, hcounted.stopTokens, hcounted.maxTokens⟩ <;> rw [hdrawn]
  · exact hcounted.drawn
  · exact hcounted.current
  · exact hcounted.waiting
  · exact hcounted.going
  · exact hcounted.limit

end Counted

/-- A sequence that is there after a turn has its next token, or has no use
for one yet. -/
theorem spoken_of_concluded {req : PendingRequest} {share : Share} {seq' : ActiveSequence}
    {h : History} {t : Turn F} {result : ForwardResult F} {drawn : List ℕ}
    {events : List GenerationEvent} (hspeaking : Voiced req share seq h)
    (hpanic : result ≠ .panicked)
    (hconcluded : Concluded t result req.seqId share (some seq) drawn events (some seq')) :
    Spoken req seq' (h.conclude drawn events) := by
  cases hconcluded with
  | idle _ hdecodes hprefills =>
    rcases hspeaking with ⟨-, -, hspoken⟩ | ⟨htoken, -, -⟩
    · rw [History.conclude_nil]
      exact hspoken
    · -- a job with a token would have been run
      rcases htoken with hne | ⟨pf, hpf, hne⟩
      · exact absurd hdecodes hne
      · exact absurd (hprefills pf hpf) hne
  | run _ hrow hsampled hcleaned =>
    cases hcleaned with
    | keep hgoing hopen =>
      rcases hspeaking with ⟨hprefills, hdecodes, hspoken⟩ | ⟨htoken, hcounted, hlevel⟩
      · have hnone := hrow.2 ⟨hprefills, hdecodes⟩
        cases hsampled with
        | skip => exact ⟨hspoken.toCounted.notify _, fun hdone => by
            simpa [History.conclude] using hspoken.ahead hdone⟩
        | draw hsome => cases hnone.symm.trans hsome
        | fail hsome => cases hnone.symm.trans hsome
      · cases hsampled with
        | skip hskip =>
          refine ⟨hcounted.notify _, fun hdone => ?_⟩
          rcases hskip with hnone | hrest
          · exact absurd (hrow.1 hnone) htoken.has_job
          · exact absurd hdone (hrest _ rfl)
        | draw _ hdone =>
          refine ⟨hcounted.draw _ hdone hgoing, fun _ => ?_⟩
          have hlength := hlevel hdone
          change (h.drawn ++ _).length = h.decodes.length + 1
          rw [List.length_append, List.length_singleton, hlength]
        | fail =>
          -- its limit is 0 now, so the cleanup takes it
          exact absurd (lt_of_finished_eq_none hgoing).1 (Nat.not_lt_zero _)
  | spared _ hjobs =>
    rcases hspeaking with ⟨-, -, hspoken⟩ | ⟨htoken, -, -⟩
    · rw [History.conclude_nil]
      exact hspoken
    · exact absurd hjobs htoken.has_job
  | crashed hresult => exact absurd hresult hpanic

/-- **Tokens are fed back one after the other**, when prompts are not
empty, whatever becomes of the passes. -/
theorem spoken_course : Course (F := F) (fun req => req.promptTokens ≠ []) (fun _ _ => True) Spoken
    Voiced (fun _ _ => True) where
  enter {req handle n} hprompt hle hpos := by
    have hn := hpos hprompt
    have htoken : (firstJob req handle n).tokenIds ≠ [] := by
      rw [← List.length_pos_iff, firstJob, List.length_take]
      omega
    exact .inr ⟨.inr ⟨_, List.mem_singleton_self _, htoken⟩, .first hle handle, fun _ => rfl⟩
  reject _ _ := trivial
  idle hspoken := .inl ⟨rfl, rfl, hspoken⟩
  decode {req seq h} hspoken hdone := by
    refine .inr ⟨.inl (List.cons_ne_nil _ _), hspoken.toCounted.decode hdone _, fun _ => ?_⟩
    have hdecodes : (h.plan { decodes := [decodeJob req.seqId seq] }).decodes.length =
        h.decodes.length + 1 := by
      simp [History.plan]
    rw [hdecodes]
    exact hspoken.ahead hdone
  chunk {req seq h n} hspoken hpos hle := by
    have hne : seq.remainingPrefill ≠ [] := List.ne_nil_of_length_pos (by omega)
    have htoken : (chunkJob req.seqId seq n).tokenIds ≠ [] := by
      rw [← List.length_pos_iff, chunkJob, List.length_take]
      omega
    refine .inr ⟨.inr ⟨_, List.mem_singleton_self _, htoken⟩, hspoken.toCounted.prefill hpos hle _,
      fun _ => ?_⟩
    have hdrawn : (h.plan { prefills := [chunkJob req.seqId seq n] }).drawn = [] :=
      hspoken.waiting hne
    have hdecodes : (h.plan { prefills := [chunkJob req.seqId seq n] }).decodes = [] := by
      simp [History.plan, hspoken.fed.prefilling hne]
    rw [hdrawn, hdecodes]
    rfl
  conclude {req share seq h t result drawn events after} hspeaking _ hpanic hconcluded := by
    cases after with
    | none => trivial
    | some seq' => exact spoken_of_concluded hspeaking hpanic hconcluded

/-- A decode of a turn is for a sequence whose prompt is through. -/
theorem Trace.OnCourse.of_mem_decodes {e : Engine R W F} {tr : Trace R F} {t : Turn F}
    {Q : PendingRequest → History → Prop} (hon : tr.OnCourse Spoken Voiced Q) (hsane : tr.Sane)
    (hfresh : tr.Fresh t) (hup : tr.state.poisoned = false) {dj : DecodeJob}
    (hdj : dj ∈ (tr.state.turn e t).1.decision.decodes) :
    ∃ req ∈ tr.submitted, req.seqId = dj.seqId ∧ ∃ seq, tr.entryOf dj.seqId = some seq ∧
      seq.remainingPrefill = [] ∧ dj = decodeJob dj.seqId seq ∧
      Spoken req seq (tr.historyOf dj.seqId) := by
  obtain ⟨events, hdone⟩ := turnDone_of_clean e hsane.state (hsane.fresh hfresh) hup
  obtain ⟨planned, drawn, sent, hplan, -, -⟩ := each_next hdone dj.seqId
  obtain ⟨-, seq, hentry, -, hprefilled, -, hjob⟩ :=
    hplan.of_mem_decodes (mem_decodesOf.2 ⟨hdj, rfl⟩)
  obtain ⟨req, hmem, hid, hspoken⟩ := (Course.progress_of_up hon hup dj.seqId).of_running hentry
  exact ⟨req, hmem, hid, seq, hentry, hprefilled, hjob, hspoken⟩

end Fracture
