import Fracture.Distributed.Turn

/-!
# What a sequence is fed

The jobs of one request, in the order of the batches: chunks that make up
its prompt, and then one job for each token drawn before, at the position
behind the prompt and the tokens in between.
-/

namespace Fracture

variable {π F : Type}

namespace DistributedSequence

variable (seq : DistributedSequence) (n : ℕ) (isPrefill : Bool) (token : ℕ)

@[simp] theorem advance_prefillDone : (seq.advance n).prefillDone =
    (seq.prefillDone || (seq.remainingPrefill.drop n).isEmpty) := rfl

variable {seq n} in
theorem advance_open (hopen : seq.prefillDone = false) (hlt : n < seq.remainingPrefill.length) :
    (seq.advance n).prefillDone = false := by
  have hleft : (seq.remainingPrefill.drop n).isEmpty = false := by
    rw [List.isEmpty_eq_false_iff, ne_eq, List.drop_eq_nil_iff]
    omega
  rw [advance_prefillDone, hopen, hleft, Bool.or_self]

@[simp] theorem advance_remainingPrefill :
    (seq.advance n).remainingPrefill = seq.remainingPrefill.drop n := rfl

@[simp] theorem advance_currentPos : (seq.advance n).currentPos = seq.currentPos := rfl

@[simp] theorem advance_generatedTokens :
    (seq.advance n).generatedTokens = seq.generatedTokens := rfl

@[simp] theorem pushToken_prefillDone :
    (seq.pushToken isPrefill token).prefillDone = seq.prefillDone := rfl

@[simp] theorem pushToken_remainingPrefill :
    (seq.pushToken isPrefill token).remainingPrefill = seq.remainingPrefill := rfl

@[simp] theorem pushToken_currentPos : (seq.pushToken isPrefill token).currentPos =
    if isPrefill then seq.currentPos else seq.currentPos + 1 := rfl

@[simp] theorem pushToken_generatedTokens :
    (seq.pushToken isPrefill token).generatedTokens = seq.generatedTokens ++ [token] := rfl

end DistributedSequence

/-- The prompt tokens in a list of jobs. -/
def prefilled (jobs : List DistributedJob) : List ℕ :=
  (jobs.filter (·.isPrefill)).flatMap (·.tokens)

/-- The jobs that feed a token back in. -/
def decodesIn (jobs : List DistributedJob) : List DistributedJob :=
  jobs.filter (!·.isPrefill)

/-- The jobs feed a prompt in chunks and then the tokens drawn, each at its
position. -/
structure Streams (prompt : List ℕ) (jobs : List DistributedJob) (drawn : List ℕ) : Prop where
  chunks : prefilled jobs <+: prompt
  whole : drawn ≠ [] → prefilled jobs = prompt
  decodes : ∀ {k job}, (decodesIn jobs)[k]? = some job → ∃ token, drawn[k]? = some token ∧
    job.tokens = [token] ∧ job.positions = [asU32 (prompt.length + k)]

section Append

variable (jobs : List DistributedJob) (seq : DistributedSequence) (n : ℕ)

theorem prefilled_append_prefill :
    prefilled (jobs ++ [seq.prefillJob n]) = prefilled jobs ++ seq.remainingPrefill.take n := by
  simp [prefilled, DistributedSequence.prefillJob]

theorem prefilled_append_decode : prefilled (jobs ++ [seq.decodeJob]) = prefilled jobs := by
  simp [prefilled, DistributedSequence.decodeJob]

theorem decodesIn_append_prefill : decodesIn (jobs ++ [seq.prefillJob n]) = decodesIn jobs := by
  simp [decodesIn, DistributedSequence.prefillJob]

theorem decodesIn_append_decode :
    decodesIn (jobs ++ [seq.decodeJob]) = decodesIn jobs ++ [seq.decodeJob] := by
  simp [decodesIn, DistributedSequence.decodeJob]

end Append

/-- Where a running sequence stands in its stream. -/
inductive DistributedSequence.Follows (prompt : List ℕ) (jobs : List DistributedJob) (drawn : List ℕ)
    (seq : DistributedSequence) : Prop
  | prompt (hopen : seq.prefillDone = false)
    (hchunks : prefilled jobs ++ seq.remainingPrefill = prompt) (hdecodes : decodesIn jobs = [])
    (hpos : seq.currentPos = prompt.length) (hgenerated : seq.generatedTokens = [])
    (hdrawn : drawn = [])
  | decoding (hdone : seq.prefillDone = true) (hchunks : prefilled jobs = prompt)
    (hpos : seq.currentPos = prompt.length + (decodesIn jobs).length)
    (hgenerated : seq.generatedTokens = drawn) (hdrawn : drawn.length = (decodesIn jobs).length + 1)

namespace DistributedSequence

variable {prompt : List ℕ} {jobs : List DistributedJob} {drawn : List ℕ}
  {seq : DistributedSequence} {job : DistributedJob}

/-- The next job is the next of the stream. -/
theorem Follows.streams (h : seq.Follows prompt jobs drawn) (hstreams : Streams prompt jobs drawn)
    (hjob : seq.JobFor job) : Streams prompt (jobs ++ [job]) drawn := by
  cases hjob with
  | @prefill n hopen hleft hle =>
    cases h with
    | decoding hdone => cases hopen.symm.trans hdone
    | prompt _ hchunks hdecodes hpos hgenerated hdrawn =>
      refine ⟨?_, fun hne => absurd hdrawn hne, fun hk => ?_⟩
      · rw [prefilled_append_prefill, ← hchunks]
        exact (List.prefix_append_right_inj _).2 (List.take_prefix _ _)
      · rw [decodesIn_append_prefill, hdecodes] at hk
        cases hk
  | decode hdone =>
    cases h with
    | prompt hopen => cases hdone.symm.trans hopen
    | decoding _ hchunks hpos hgenerated hdrawn =>
      have hsame := (prefilled_append_decode jobs seq).trans hchunks
      refine ⟨hsame ▸ List.prefix_rfl, fun _ => hsame, fun {k job} hk => ?_⟩
      · rw [decodesIn_append_decode] at hk
        rcases Nat.lt_trichotomy k (decodesIn jobs).length with hlt | rfl | hgt
        · rw [List.getElem?_append_left hlt] at hk
          exact hstreams.decodes hk
        · rw [List.getElem?_concat_length] at hk
          cases hk
          have hlast : drawn[(decodesIn jobs).length]? = some seq.lastToken := by
            have hlt : (decodesIn jobs).length < drawn.length := by omega
            have hidx : drawn.length - 1 = (decodesIn jobs).length := by omega
            rw [lastToken, hgenerated, List.getLast?_eq_getElem?, hidx,
              List.getElem?_eq_getElem hlt, Option.getD_some]
          exact ⟨seq.lastToken, hlast, rfl, by rw [decodeJob, hpos]⟩
        · rw [List.getElem?_eq_none (by rw [List.length_append, List.length_singleton]; omega)] at hk
          cases hk

/-- A sequence moves on with its stream. -/
theorem Follows.chunk (h : seq.Follows prompt jobs drawn) (hopen : seq.prefillDone = false) {n : ℕ}
    (hlt : n < seq.remainingPrefill.length) :
    (seq.advance n).Follows prompt (jobs ++ [seq.prefillJob n]) drawn := by
  cases h with
  | decoding hdone => cases hopen.symm.trans hdone
  | prompt _ hchunks hdecodes hpos hgenerated hdrawn =>
    refine .prompt (advance_open hopen hlt) ?_ ?_ hpos hgenerated hdrawn
    · rw [prefilled_append_prefill, ← hchunks, List.append_assoc]
      exact congrArg _ (List.take_append_drop n _)
    · rw [decodesIn_append_prefill, hdecodes]

variable {isPrefill : Bool} {seq' : DistributedSequence}

theorem Follows.draw (h : seq.Follows prompt jobs drawn) (hready : seq.Ready job isPrefill seq')
    (token : ℕ) :
    (seq'.pushToken isPrefill token).Follows prompt (jobs ++ [job]) (drawn ++ [token]) := by
  cases hready with
  | prompt hopen hleft =>
    cases h with
    | decoding hdone => cases hopen.symm.trans hdone
    | prompt _ hchunks hdecodes hpos hgenerated hdrawn =>
      have hcount : decodesIn (jobs ++ [seq.prefillJob seq.remainingPrefill.length]) = [] := by
        rw [decodesIn_append_prefill, hdecodes]
      refine .decoding ?_ ?_ ?_ ?_ ?_
      · simp
      · rw [prefilled_append_prefill, List.take_length, hchunks]
      · rw [hcount]
        exact hpos
      · simp [hgenerated, hdrawn]
      · rw [hcount, hdrawn]
        rfl
  | decode hdone =>
    cases h with
    | prompt hopen => cases hdone.symm.trans hopen
    | decoding _ hchunks hpos hgenerated hdrawn =>
      refine .decoding hdone ?_ ?_ ?_ ?_
      · rw [prefilled_append_decode, hchunks]
      · rw [decodesIn_append_decode, List.length_append, List.length_singleton,
          ← Nat.add_assoc, ← hpos]
        rfl
      · rw [pushToken_generatedTokens, hgenerated]
      · rw [decodesIn_append_decode, List.length_append, List.length_append, hdrawn]
        rfl

theorem Ready.jobFor (h : seq.Ready job isPrefill seq') : seq.JobFor job := by
  cases h with
  | prompt hopen hleft => exact .prefill hopen hleft le_rfl
  | decode hdone => exact .decode hdone

end DistributedSequence

/-- What a request's life has to do with its prompt. -/
def Life.Streams (req : PendingRequest) (l : Life) : Prop :=
  Fracture.Streams req.promptTokens l.jobs l.drawn ∧
    match l.status with
    | .unborn => l.jobs = [] ∧ l.drawn = []
    | .waiting r => r = req ∧ l.jobs = [] ∧ l.drawn = []
    | .running seq => seq.Follows req.promptTokens l.jobs l.drawn
    | .over => True

namespace Life.Streams

variable {t : DistributedTurn π F} {id : ℕ} {req : PendingRequest} {l l' : Life}

section

variable (h : l.Streams req) {seq : DistributedSequence} (hstatus : l.status = .running seq)
include h hstatus

theorem running : seq.Follows req.promptTokens l.jobs l.drawn := by
  have hrest := h.2
  rw [hstatus] at hrest
  exact hrest

/-- The next job, and no token. -/
theorem fed {job : DistributedJob} (hjob : seq.JobFor job) (events : List GenerationEvent) :
    Life.Streams req { status := .over, events, jobs := l.jobs ++ [job], drawn := l.drawn } :=
  ⟨(h.running hstatus).streams h.1 hjob, trivial⟩

end

/-- **Every move keeps to the stream.** -/
theorem move (hreq : ∀ r ∈ t.arrivals, r.seqId = id → r = req) (h : l.Streams req)
    (hmove : l.Move t id l') : l'.Streams req := by
  cases hmove with
  | arrive hstatus hmem hid =>
    have hrest := h.2
    rw [hstatus] at hrest
    exact ⟨h.1, hreq _ hmem hid, hrest⟩
  | refuse hstatus message => exact ⟨h.1, trivial⟩
  | enter hstatus =>
    have hrest := h.2
    rw [hstatus] at hrest
    obtain ⟨rfl, hjobs, hdrawn⟩ := hrest
    refine ⟨h.1, .prompt rfl ?_ ?_ rfl rfl hdrawn⟩
    · rw [hjobs]
      rfl
    · rw [hjobs]
      rfl
  | abort hstatus message => exact ⟨h.1, trivial⟩
  | lose hstatus hjob message => exact h.fed hstatus hjob _
  | @chunk seq n hstatus hopen hlt =>
    have hjob : seq.JobFor (seq.prefillJob n) :=
      .prefill hopen (List.ne_nil_of_length_pos (by omega)) (Nat.le_of_lt hlt)
    exact ⟨(h.running hstatus).streams h.1 hjob, (h.running hstatus).chunk hopen hlt⟩
  | @draw seq job isPrefill seq' logits token hstatus hready hok =>
    have hfollows := (h.running hstatus).draw hready token
    have hstreams := (h.running hstatus).streams h.1 hready.jobFor
    refine ⟨⟨hstreams.chunks, fun _ => ?_, fun hk => ?_⟩, ?_⟩
    · cases hfollows with
      | prompt _ _ _ _ _ hdrawn => simp at hdrawn
      | decoding _ hchunks => exact hchunks
    · obtain ⟨token', hdrawn, hjob⟩ := hstreams.decodes hk
      refine ⟨token', ?_, hjob⟩
      rw [List.getElem?_append_left (List.getElem?_eq_some_iff.1 hdrawn).1]
      exact hdrawn
    · by_cases hthrough : (seq'.pushToken isPrefill token).through token = true
      · rw [if_pos hthrough]
        exact trivial
      · rw [if_neg hthrough]
        exact hfollows
  | botch hstatus hready herr message => exact h.fed hstatus hready.jobFor _

end Life.Streams

/-- **Every run feeds every request its stream.** -/
theorem DistributedTrace.streams (cfg : DistributedLoopConfig) (pipeline : π)
    {turns : List (DistributedTurn π F)}
    (hids : ((turns.flatMap (·.arrivals)).map (·.seqId)).Nodup) {req : PendingRequest}
    (hreq : req ∈ turns.flatMap (·.arrivals)) :
    Streams req.promptTokens ((serve cfg pipeline turns).jobsOf req.seqId)
      ((serve cfg pipeline turns).drawnOf req.seqId) := by
  have hlife := lives_keep cfg pipeline hids req.seqId (Life.Streams req)
    ⟨⟨List.nil_prefix, fun hne => absurd rfl hne, fun hk => by cases hk⟩, rfl, rfl⟩
    fun t ht l l' h hmove => h.move (fun r hr hid => ?_) hmove
  · exact hlife.1
  · exact List.inj_on_of_nodup_map hids (List.mem_flatMap.2 ⟨t, ht, hr⟩) hreq hid

end Fracture
