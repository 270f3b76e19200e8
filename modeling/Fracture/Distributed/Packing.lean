import Fracture.Distributed.Loop

/-!
# What a batch packs

A batch on the wire is a list of token ids with the metadata to cut it
up. Here it is read as a list of jobs, one for each sequence in it: a
chunk of a prompt, or the last token drawn. Packing jobs and cutting them
out again are inverse to each other. What the two loops that build a batch
take is a function of what is left to do, and the batch is the packing of
jobs for sequences that run, at most one for each.
-/

namespace Fracture

/-- One sequence's share of a batch. -/
structure DistributedJob where
  seqId : ℕ
  isPrefill : Bool
  tokens : List ℕ
  positions : List ℕ
  deriving DecidableEq, Repr

/-- The metadata of a job. -/
def DistributedJob.wire (job : DistributedJob) : SequenceMetadataWire :=
  { seqId := job.seqId, numTokens := job.tokens.length, positions := job.positions }

namespace DistributedSequence

variable (seq : DistributedSequence)

def prefillJob (n : ℕ) : DistributedJob :=
  { seqId := seq.seqId, isPrefill := true, tokens := seq.remainingPrefill.take n
    positions := seq.chunkPositions n }

def decodeJob : DistributedJob :=
  { seqId := seq.seqId, isPrefill := false, tokens := [seq.lastToken]
    positions := [asU32 seq.currentPos] }

/-- There are prompt tokens to run. -/
def unfed : Bool := !seq.prefillDone && !seq.remainingPrefill.isEmpty

theorem of_unfed (h : seq.unfed = true) :
    seq.prefillDone = false ∧ seq.remainingPrefill ≠ [] := by
  rwa [unfed, Bool.and_eq_true, Bool.not_eq_true', Bool.not_eq_true', List.isEmpty_eq_false_iff]
    at h

/-- The most the prefill limit lets through of a prompt at once. -/
def share (cfg : DistributedLoopConfig) : ℕ :=
  min seq.remainingPrefill.length cfg.maxPrefillTokens

/-- What a sequence can be given in a batch. -/
inductive JobFor : DistributedJob → Prop
  | prefill {n} (hopen : seq.prefillDone = false) (hleft : seq.remainingPrefill ≠ [])
    (hle : n ≤ seq.remainingPrefill.length) : JobFor (seq.prefillJob n)
  | decode (hdone : seq.prefillDone = true) : JobFor seq.decodeJob

variable {seq} {job : DistributedJob}

theorem JobFor.seqId (h : seq.JobFor job) : job.seqId = seq.seqId := by
  cases h <;> rfl

/-- A chunk's positions are as many as its tokens unless they run past 32
bits. -/
theorem length_chunkPositions {n : ℕ} :
    (seq.chunkPositions n).length = n ↔ asU32 seq.startPos + n < 2 ^ 32 ∨ n = 0 := by
  rw [chunkPositions, List.length_range', asU32, asU32]
  omega

theorem length_chunkPositions_le {n : ℕ} : (seq.chunkPositions n).length ≤ n := by
  rw [chunkPositions, List.length_range', asU32, asU32]
  omega

theorem JobFor.length_positions_le (h : seq.JobFor job) :
    job.positions.length ≤ job.tokens.length := by
  cases h with
  | prefill hopen hleft hle =>
    rw [prefillJob, List.length_take, Nat.min_eq_left hle]
    exact length_chunkPositions_le
  | decode hdone => rfl

/-- Below 2^32 every token has its position. -/
theorem JobFor.length_positions (h : seq.JobFor job) (hshort : seq.currentPos < 2 ^ 32) :
    job.positions.length = job.tokens.length := by
  cases h with
  | @prefill n hopen hleft hle =>
    have hbehind := seq.behind
    have hstart : seq.startPos + n < 2 ^ 32 := by
      rw [startPos]
      omega
    have hfits : asU32 seq.startPos + n < 2 ^ 32 := by
      rw [asU32, Nat.mod_eq_of_lt (by omega)]
      exact hstart
    rw [prefillJob, List.length_take, Nat.min_eq_left hle]
    exact length_chunkPositions.2 (.inl hfits)
  | decode hdone => rfl

end DistributedSequence

open DistributedSequence

namespace DistributedBatch

/-- Pack jobs into a batch. -/
def ofJobs (jobs : List DistributedJob) : DistributedBatch :=
  { seqIds := jobs.map (·.seqId)
    isPrefill := jobs.map (·.isPrefill)
    allTokenIds := jobs.flatMap (·.tokens)
    metas := jobs.map (·.wire)
    totalTokens := (jobs.map (·.tokens.length)).sum }

/-- Cut packed token ids up by the metadata. -/
def unpack : List Bool → List SequenceMetadataWire → List ℕ → List DistributedJob
  | isPrefill :: flags, sequence :: rest, ids =>
    { seqId := sequence.seqId, isPrefill, tokens := ids.take sequence.numTokens,
      positions := sequence.positions } :: unpack flags rest (ids.drop sequence.numTokens)
  | _, _, _ => []

/-- The jobs of a batch. -/
def jobs (batch : DistributedBatch) : List DistributedJob :=
  unpack batch.isPrefill batch.metas batch.allTokenIds

theorem length_splitLogits {F : Type} (flat : List F) (jobs : List DistributedJob) :
    (splitLogitsPerSequence flat (ofJobs jobs).metas.length).length = jobs.length := by
  simp [splitLogitsPerSequence, ofJobs]

/-- **What is packed is what is cut out.** -/
theorem jobs_ofJobs (jobs : List DistributedJob) : (ofJobs jobs).jobs = jobs := by
  induction jobs with
  | nil => rfl
  | cons job rest ih =>
    have htake : (job.tokens ++ rest.flatMap (·.tokens)).take job.tokens.length = job.tokens :=
      List.take_left
    have hdrop : (job.tokens ++ rest.flatMap (·.tokens)).drop job.tokens.length =
        rest.flatMap (·.tokens) := List.drop_left
    change unpack (job.isPrefill :: rest.map (·.isPrefill)) (job.wire :: rest.map (·.wire))
      (job.tokens ++ rest.flatMap (·.tokens)) = _
    rw [unpack, DistributedJob.wire, htake, hdrop]
    exact congrArg _ ih

theorem push_ofJobs (jobs : List DistributedJob) (job : DistributedJob) :
    (ofJobs jobs).push job.isPrefill job.tokens job.wire = ofJobs (jobs ++ [job]) := by
  simp [ofJobs, push, DistributedJob.wire]

/-- Jobs for some of the sequences, in their order. -/
structure JobsFor (seqs : List DistributedSequence) (jobs : List DistributedJob) : Prop where
  ids : (jobs.map (·.seqId)).Sublist (seqs.map (·.seqId))
  each : ∀ job ∈ jobs, ∃ seq ∈ seqs, seq.JobFor job

namespace JobsFor

variable {seqs : List DistributedSequence} {jobs : List DistributedJob} {seq : DistributedSequence}

theorem nil : JobsFor seqs [] := ⟨List.nil_sublist _, by simp⟩

theorem take (h : JobsFor seqs jobs) {job : DistributedJob} (hfor : seq.JobFor job) :
    JobsFor (seq :: seqs) (job :: jobs) := by
  refine ⟨?_, fun job' hjob => ?_⟩
  · rw [List.map_cons, List.map_cons, hfor.seqId]
    exact h.ids.cons_cons _
  · rcases List.mem_cons.1 hjob with rfl | hjob
    · exact ⟨seq, .head _, hfor⟩
    · obtain ⟨seq', hmem, hfor'⟩ := h.each job' hjob
      exact ⟨seq', .tail _ hmem, hfor'⟩

end JobsFor

/-! ## How much the loops take -/

/-- The tokens of some prompts, each cut to the prefill limit. -/
def shares (cfg : DistributedLoopConfig) (seqs : List DistributedSequence) : ℕ :=
  (seqs.map (·.share cfg)).sum

/-- The tokens of some jobs. -/
def jobTokens (jobs : List DistributedJob) : ℕ := (jobs.map (·.tokens.length)).sum

theorem jobTokens_append (jobs more : List DistributedJob) :
    jobTokens (jobs ++ more) = jobTokens jobs + jobTokens more := by
  simp [jobTokens]

theorem jobTokens_singleton (job : DistributedJob) : jobTokens [job] = job.tokens.length := by
  simp [jobTokens]

/-- What the prefill loop adds to a batch with `jobs`: tokens until the
batch has no more room for them, and as many prompts as it has room for if
there are tokens left. -/
structure Taken (cfg : DistributedLoopConfig) (prompts : List DistributedSequence)
    (jobs more : List DistributedJob) : Prop where
  each : ∀ job ∈ more, ∃ seq ∈ prompts, ∃ n, (0 < cfg.maxPrefillTokens → 0 < n) ∧
    job = seq.prefillJob n
  tokens : jobTokens jobs + jobTokens more = min cfg.maxBatchTokens
    (jobTokens jobs + shares cfg (prompts.take (cfg.maxBatchSize - jobs.length)))
  size : jobs.length + more.length ≤ cfg.maxBatchSize
  all : jobTokens jobs + jobTokens more < cfg.maxBatchTokens →
    more.length = min prompts.length (cfg.maxBatchSize - jobs.length)
  none : more = [] ↔ prompts = [] ∨ (ofJobs jobs).full cfg

variable {cfg : DistributedLoopConfig} {jobs more : List DistributedJob}
  {prompts : List DistributedSequence}

theorem full_ofJobs : (ofJobs jobs).full cfg ↔
    jobTokens jobs ≥ cfg.maxBatchTokens ∨ jobs.length ≥ cfg.maxBatchSize := by
  simp [full, ofJobs, jobTokens]

section

variable (htokens : jobTokens jobs ≤ cfg.maxBatchTokens) (hsize : jobs.length ≤ cfg.maxBatchSize)
include htokens hsize

/-- A full batch takes nothing. -/
theorem Taken.of_full (hfull : (ofJobs jobs).full cfg) : Taken cfg prompts jobs [] := by
  have hwhy := full_ofJobs.1 hfull
  have hnil : jobTokens jobs + jobTokens [] = jobTokens jobs := rfl
  refine ⟨by simp, ?_, hsize, fun hlt => ?_, by simp [hfull]⟩
  · rw [hnil]
    rcases hwhy with hge | hge
    · omega
    · have hzero : shares cfg (prompts.take (cfg.maxBatchSize - jobs.length)) = 0 := by
        rw [Nat.sub_eq_zero_of_le hge, List.take_zero]
        rfl
      omega
  · rw [List.length_nil]
    omega

theorem Taken.of_nil : Taken cfg [] jobs [] := by
  have hnil : jobTokens jobs + jobTokens [] = jobTokens jobs := rfl
  have hzero : shares cfg ([].take (cfg.maxBatchSize - jobs.length)) = 0 := by
    rw [List.take_nil]
    rfl
  refine ⟨by simp, ?_, hsize, fun _ => by simp, by simp⟩
  omega

end

theorem length_prefillJob (cfg : DistributedLoopConfig) (jobs : List DistributedJob)
    (seq : DistributedSequence) :
    (seq.prefillJob ((ofJobs jobs).chunkSize cfg seq)).tokens.length =
      min (seq.share cfg) (cfg.maxBatchTokens - jobTokens jobs) := by
  have htotal : (ofJobs jobs).totalTokens = jobTokens jobs := rfl
  rw [prefillJob, List.length_take, chunkSize, htotal, share]
  omega

/-- A batch with room takes the next prompt. -/
theorem Taken.cons {seq : DistributedSequence} (hunfed : seq.unfed = true)
    (hroom : ¬ (ofJobs jobs).full cfg)
    (h : Taken cfg prompts (jobs ++ [seq.prefillJob ((ofJobs jobs).chunkSize cfg seq)]) more) :
    Taken cfg (seq :: prompts) jobs (seq.prefillJob ((ofJobs jobs).chunkSize cfg seq) :: more) := by
  have hlen := length_prefillJob cfg jobs seq
  have hopen := mt full_ofJobs.2 hroom
  have hfirst : ∃ n, (0 < cfg.maxPrefillTokens → 0 < n) ∧
      seq.prefillJob ((ofJobs jobs).chunkSize cfg seq) = seq.prefillJob n := by
    refine ⟨_, fun hpos => ?_, rfl⟩
    have hleft := List.length_pos_iff.2 ((seq.of_unfed hunfed).2)
    have htotal : (ofJobs jobs).totalTokens = jobTokens jobs := rfl
    rw [chunkSize, htotal]
    omega
  generalize seq.prefillJob ((ofJobs jobs).chunkSize cfg seq) = job at *
  have htokens := h.tokens
  have hsize := h.size
  have hall := h.all
  have hcons : jobTokens (job :: more) = job.tokens.length + jobTokens more := by simp [jobTokens]
  rw [jobTokens_append, jobTokens_singleton] at htokens hall
  rw [List.length_append, List.length_singleton] at htokens hsize hall
  have hroom' : cfg.maxBatchSize - jobs.length = cfg.maxBatchSize - (jobs.length + 1) + 1 := by
    omega
  refine ⟨?_, ?_, ?_, fun hlt => ?_, ?_⟩
  · rintro job' (_ | ⟨_, hmem⟩)
    · exact ⟨seq, .head _, hfirst⟩
    · obtain ⟨seq', hseq', heq⟩ := h.each _ hmem
      exact ⟨seq', .tail _ hseq', heq⟩
  · have hshares : shares cfg ((seq :: prompts).take (cfg.maxBatchSize - jobs.length)) =
        seq.share cfg + shares cfg (prompts.take (cfg.maxBatchSize - (jobs.length + 1))) := by
      rw [hroom', List.take_succ_cons]
      simp [shares]
    rw [hcons, hshares]
    omega
  · rw [List.length_cons]
    omega
  · rw [hcons] at hlt
    rw [List.length_cons, List.length_cons, hall (by omega)]
    omega
  · simp [hroom]

/-- **How much the prefill loop takes.** -/
theorem addPrefills_taken (cfg : DistributedLoopConfig) (seqs : List DistributedSequence)
    (htokens : jobTokens jobs ≤ cfg.maxBatchTokens) (hsize : jobs.length ≤ cfg.maxBatchSize) :
    ∃ more, addPrefills cfg seqs (ofJobs jobs) = ofJobs (jobs ++ more) ∧
      Taken cfg (seqs.filter (·.unfed)) jobs more ∧ JobsFor (seqs.filter (·.unfed)) more := by
  induction seqs generalizing jobs with
  | nil => exact ⟨[], by rw [List.append_nil]; rfl, .of_nil htokens hsize, .nil⟩
  | cons seq seqs ih =>
    unfold addPrefills
    split
    · next hskip =>
      have hfed : ¬ seq.unfed = true := by
        rw [unfed, ← Bool.not_or, hskip]
        exact Bool.false_ne_true
      rw [List.filter_cons_of_neg hfed]
      exact ih htokens hsize
    · next hopen =>
      have hunfed : seq.unfed = true := by
        rw [unfed, ← Bool.not_or, Bool.not_eq_true']
        exact Bool.not_eq_true _ ▸ hopen
      rw [List.filter_cons_of_pos hunfed]
      split
      · next hfull => exact ⟨[], by rw [List.append_nil], .of_full htokens hsize hfull, .nil⟩
      · next hroom =>
        dsimp only
        have hle : (ofJobs jobs).chunkSize cfg seq ≤ seq.remainingPrefill.length :=
          (Nat.min_le_left ..).trans (Nat.min_le_left ..)
        have hpush : (ofJobs jobs).push true
            (seq.remainingPrefill.take ((ofJobs jobs).chunkSize cfg seq))
            (seq.prefillMeta ((ofJobs jobs).chunkSize cfg seq)) =
            ofJobs (jobs ++ [seq.prefillJob ((ofJobs jobs).chunkSize cfg seq)]) := by
          rw [← push_ofJobs, DistributedJob.wire, prefillJob, List.length_take,
            Nat.min_eq_left hle]
          rfl
        have hlen := length_prefillJob cfg jobs seq
        have hopen' := mt full_ofJobs.2 hroom
        have htokens' :
            jobTokens (jobs ++ [seq.prefillJob ((ofJobs jobs).chunkSize cfg seq)]) ≤
              cfg.maxBatchTokens := by
          rw [jobTokens_append, jobTokens_singleton, hlen]
          omega
        have hsize' : (jobs ++ [seq.prefillJob ((ofJobs jobs).chunkSize cfg seq)]).length ≤
            cfg.maxBatchSize := by
          rw [List.length_append, List.length_singleton]
          omega
        obtain ⟨more, heq, htaken, hfor⟩ := ih htokens' hsize'
        obtain ⟨hopen, hleft⟩ := seq.of_unfed hunfed
        refine ⟨_, ?_, htaken.cons hunfed hroom, hfor.take (.prefill hopen hleft hle)⟩
        rw [hpush, heq, List.append_assoc]
        rfl

section

variable (cfg : DistributedLoopConfig) (seqs : List DistributedSequence)
  (jobs : List DistributedJob)

/-- The decodes that still have room. -/
def decodesTaken : List DistributedSequence :=
  (seqs.filter (·.prefillDone)).take
    (min (cfg.maxBatchTokens - jobTokens jobs) (cfg.maxBatchSize - jobs.length))

/-- **How much the decode loop takes.** -/
theorem addDecodes_taken : addDecodes cfg seqs (ofJobs jobs) =
      ofJobs (jobs ++ (decodesTaken cfg seqs jobs).map (·.decodeJob)) := by
  induction seqs generalizing jobs with
  | nil => rw [decodesTaken, List.filter_nil, List.take_nil, List.map_nil, List.append_nil]; rfl
  | cons seq seqs ih =>
    unfold addDecodes
    split
    · next hskip =>
      have hopen : ¬ seq.prefillDone = true := by
        simpa using hskip
      rw [ih, decodesTaken, decodesTaken, List.filter_cons_of_neg hopen]
    · next hdone =>
      have hdone : seq.prefillDone = true := by
        simpa using hdone
      rw [decodesTaken, List.filter_cons_of_pos hdone]
      split
      · next hfull =>
        have hzero : min (cfg.maxBatchTokens - jobTokens jobs) (cfg.maxBatchSize - jobs.length) = 0 := by
          have hwhy := full_ofJobs.1 hfull
          omega
        rw [hzero, List.take_zero, List.map_nil, List.append_nil]
      · next hroom =>
        have hopen := mt full_ofJobs.2 hroom
        have htokens : jobTokens (jobs ++ [seq.decodeJob]) = jobTokens jobs + 1 := by
          rw [jobTokens_append]
          rfl
        have hsucc : min (cfg.maxBatchTokens - jobTokens jobs) (cfg.maxBatchSize - jobs.length) =
            min (cfg.maxBatchTokens - (jobTokens jobs + 1))
              (cfg.maxBatchSize - (jobs.length + 1)) + 1 := by
          omega
        change addDecodes cfg seqs ((ofJobs jobs).push seq.decodeJob.isPrefill
          seq.decodeJob.tokens seq.decodeJob.wire) = _
        rw [push_ofJobs, ih, decodesTaken, htokens, List.length_append, List.length_singleton, hsucc,
          List.take_succ_cons, List.map_cons, List.append_assoc]
        rfl

theorem jobTokens_nil_le : jobTokens [] ≤ cfg.maxBatchTokens :=
  Nat.zero_le _

/-- The batch is what the two loops take. -/
theorem build_taken :
    ∃ prefills, build cfg seqs =
        ofJobs (prefills ++ (decodesTaken cfg seqs prefills).map (·.decodeJob)) ∧
      Taken cfg (seqs.filter (·.unfed)) [] prefills ∧
      JobsFor (seqs.filter (·.unfed)) prefills := by
  obtain ⟨prefills, heq, htaken⟩ := addPrefills_taken cfg seqs (jobTokens_nil_le cfg)
    (Nat.zero_le _)
  refine ⟨prefills, ?_, htaken⟩
  rw [← addDecodes_taken, build]
  exact congrArg _ heq

end

/-- **The batch of a set of sequences packs jobs for them, at most one for
each.** -/
theorem build_eq (cfg : DistributedLoopConfig) {seqs : List DistributedSequence}
    (hids : (seqs.map (·.seqId)).Nodup) :
    ∃ jobs, build cfg seqs = ofJobs jobs ∧ (jobs.map (·.seqId)).Nodup ∧
      ∀ job ∈ jobs, ∃ seq ∈ seqs, seq.JobFor job := by
  obtain ⟨prefills, hbuild, -, hopen⟩ := build_taken cfg seqs
  have hdone : JobsFor (seqs.filter (·.prefillDone))
      ((decodesTaken cfg seqs prefills).map (·.decodeJob)) := by
    refine ⟨?_, fun job hjob => ?_⟩
    · rw [List.map_map]
      exact (List.take_sublist _ _).map _
    · obtain ⟨seq, hseq, rfl⟩ := List.mem_map.1 hjob
      have hmem := List.mem_of_mem_take hseq
      exact ⟨seq, hmem, .decode (List.mem_filter.1 hmem).2⟩
  refine ⟨_, hbuild, ?_, fun job hjob => ?_⟩
  · rw [List.map_append, List.nodup_append]
    refine ⟨hopen.ids.nodup ((List.filter_sublist.map _).nodup hids),
      hdone.ids.nodup ((List.filter_sublist.map _).nodup hids), ?_⟩
    -- A sequence in both loops would have its prompt done and not done.
    intro id hid id' hid' heq
    obtain ⟨seq, hseq, rfl⟩ := List.mem_map.1 (hopen.ids.subset hid)
    obtain ⟨seq', hseq', rfl⟩ := List.mem_map.1 (hdone.ids.subset hid')
    rw [List.mem_filter] at hseq hseq'
    have hsame := List.inj_on_of_nodup_map hids hseq.1 hseq'.1 heq
    rw [hsame] at hseq
    simp [unfed, hseq'.2] at hseq
  · rcases List.mem_append.1 hjob with hjob | hjob
    · obtain ⟨seq, hmem, hfor⟩ := hopen.each job hjob
      exact ⟨seq, List.mem_of_mem_filter hmem, hfor⟩
    · obtain ⟨seq, hmem, hfor⟩ := hdone.each job hjob
      exact ⟨seq, List.mem_of_mem_filter hmem, hfor⟩

end DistributedBatch

end Fracture
