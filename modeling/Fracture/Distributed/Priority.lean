import Fracture.Distributed.Packing

/-!
# Who gets into a distributed batch

The distributed loop fills a batch with prompts first and decodes after
them, and it cuts each prompt to the prefill limit by itself. Here is when
a batch keeps to the policy of the local scheduler: decodes come first, and
all prompts together stay below the prefill limit.
-/

namespace Fracture

open DistributedSequence

namespace DistributedBatch

variable {cfg : DistributedLoopConfig} {seqs : List DistributedSequence}

/-- The prompt tokens in a batch. -/
def prefillTokens (batch : DistributedBatch) : ℕ :=
  ((batch.isPrefill.zip batch.metas).map fun p => if p.1 then p.2.numTokens else 0).sum

/-- The policy of the local scheduler: a prompt is in the batch only if
every decode is, and the prompts together stay below the limit. -/
structure DecodesFirst (cfg : DistributedLoopConfig) (seqs : List DistributedSequence)
    (batch : DistributedBatch) : Prop where
  decodes : true ∈ batch.isPrefill → ∀ seq ∈ seqs, seq.prefillDone = true →
    seq.seqId ∈ batch.seqIds
  prefills : batch.prefillTokens ≤ cfg.maxPrefillTokens

/-- There is no prompt to run or no room for any. Or the prompts that a
batch can take are within the prefill limit together, and there is room
for all of them and all decodes. -/
def Roomy (cfg : DistributedLoopConfig) (seqs : List DistributedSequence) : Prop :=
  cfg.maxBatchTokens = 0 ∨ cfg.maxBatchSize = 0 ∨ seqs.filter (·.unfed) = [] ∨
    min cfg.maxBatchTokens (shares cfg ((seqs.filter (·.unfed)).take cfg.maxBatchSize)) ≤
        cfg.maxPrefillTokens ∧
      (seqs.filter (·.prefillDone) = [] ∨
        shares cfg (seqs.filter (·.unfed)) + (seqs.filter (·.prefillDone)).length ≤
            cfg.maxBatchTokens ∧
          (seqs.filter (·.unfed)).length + (seqs.filter (·.prefillDone)).length ≤ cfg.maxBatchSize)

/-! ## The batch -/

@[simp] theorem seqIds_ofJobs (jobs : List DistributedJob) :
    (ofJobs jobs).seqIds = jobs.map (·.seqId) := rfl

@[simp] theorem isPrefill_ofJobs (jobs : List DistributedJob) :
    (ofJobs jobs).isPrefill = jobs.map (·.isPrefill) := rfl

section Built

variable {prefills : List DistributedJob} (hprefills : ∀ job ∈ prefills, job.isPrefill = true)
  (decodes : List DistributedSequence)
include hprefills

theorem mem_isPrefill_ofJobs :
    true ∈ (ofJobs (prefills ++ decodes.map (·.decodeJob))).isPrefill ↔ prefills ≠ [] := by
  rw [isPrefill_ofJobs, List.map_append, List.mem_append, List.map_map]
  constructor
  · rintro (hmem | hmem)
    · rintro rfl
      cases hmem
    · obtain ⟨seq, -, hflag⟩ := List.mem_map.1 hmem
      cases hflag
  · intro hne
    obtain ⟨job, hjob⟩ := List.exists_mem_of_ne_nil _ hne
    exact .inl (List.mem_map.2 ⟨job, hjob, hprefills job hjob⟩)

theorem prefillTokens_ofJobs :
    (ofJobs (prefills ++ decodes.map (·.decodeJob))).prefillTokens = jobTokens prefills := by
  have hzip : ∀ jobs : List DistributedJob, (ofJobs jobs).prefillTokens =
      (jobs.map fun job => if job.isPrefill then job.tokens.length else 0).sum := by
    intro jobs
    rw [prefillTokens, ofJobs, List.zip_map', List.map_map]
    rfl
  have hfirst : prefills.map (fun job => if job.isPrefill then job.tokens.length else 0) =
      prefills.map (·.tokens.length) :=
    List.map_congr_left fun job hjob => if_pos (hprefills job hjob)
  have hrest : (decodes.map (·.decodeJob)).map
      (fun job => if job.isPrefill then job.tokens.length else 0) = decodes.map fun _ => 0 := by
    rw [List.map_map]
    rfl
  rw [hzip, List.map_append, List.sum_append, hfirst, hrest]
  simp [jobTokens]

end Built

/-- Every decode is in the batch if and only if there is room for all. -/
theorem decodes_in_iff (hids : (seqs.map (·.seqId)).Nodup) {prefills : List DistributedJob}
    (hfrom : ∀ job ∈ prefills, ∃ seq ∈ seqs.filter (·.unfed), seq.seqId = job.seqId) {n : ℕ} :
    (∀ seq ∈ seqs, seq.prefillDone = true → seq.seqId ∈
        (ofJobs (prefills ++ ((seqs.filter (·.prefillDone)).take n).map (·.decodeJob))).seqIds) ↔
      (seqs.filter (·.prefillDone)).length ≤ n := by
  have hids' : ((seqs.filter (·.prefillDone)).map (·.seqId)).Nodup :=
    (List.filter_sublist.map _).nodup hids
  constructor
  · intro hall
    -- no id of a decode is among the prompts, so all are among the first n decodes
    have hsub : (seqs.filter (·.prefillDone)).map (·.seqId) ⊆
        ((seqs.filter (·.prefillDone)).take n).map (·.seqId) := by
      intro id hid
      obtain ⟨seq, hseq, rfl⟩ := List.mem_map.1 hid
      obtain ⟨hmem, hdone⟩ := List.mem_filter.1 hseq
      have hin := hall seq hmem hdone
      rw [seqIds_ofJobs, List.map_append, List.map_map, List.mem_append] at hin
      rcases hin with hin | hin
      · obtain ⟨job, hjob, hid⟩ := List.mem_map.1 hin
        obtain ⟨seq', hseq', heq⟩ := hfrom job hjob
        obtain ⟨hmem', hunfed⟩ := List.mem_filter.1 hseq'
        have hsame := List.inj_on_of_nodup_map hids hmem' hmem (heq.trans hid)
        rw [hsame, unfed, hdone] at hunfed
        cases hunfed
      · exact hin
    have hle := (List.subperm_of_subset hids' hsub).length_le
    rw [List.length_map, List.length_map, List.length_take] at hle
    omega
  · intro hle seq hmem hdone
    rw [List.take_of_length_le hle, seqIds_ofJobs, List.map_append, List.map_map, List.mem_append]
    exact .inr (List.mem_map_of_mem (List.mem_filter.2 ⟨hmem, hdone⟩))

/-- What the policy asks of the two loops. -/
theorem decodesFirst_iff (hids : (seqs.map (·.seqId)).Nodup) {prefills : List DistributedJob}
    (htaken : Taken cfg (seqs.filter (·.unfed)) [] prefills) :
    DecodesFirst cfg seqs
        (ofJobs (prefills ++ (decodesTaken cfg seqs prefills).map (·.decodeJob))) ↔
      (prefills ≠ [] → (seqs.filter (·.prefillDone)).length ≤
        min (cfg.maxBatchTokens - jobTokens prefills) (cfg.maxBatchSize - prefills.length)) ∧
      jobTokens prefills ≤ cfg.maxPrefillTokens := by
  have hflags : ∀ job ∈ prefills, job.isPrefill = true := by
    intro job hjob
    obtain ⟨seq, -, n, -, rfl⟩ := htaken.each job hjob
    rfl
  have hfrom : ∀ job ∈ prefills, ∃ seq ∈ seqs.filter (·.unfed), seq.seqId = job.seqId := by
    intro job hjob
    obtain ⟨seq, hseq, n, -, rfl⟩ := htaken.each job hjob
    exact ⟨seq, hseq, rfl⟩
  have hdecodes := decodes_in_iff hids hfrom (n :=
    min (cfg.maxBatchTokens - jobTokens prefills) (cfg.maxBatchSize - prefills.length))
  have hmem := mem_isPrefill_ofJobs hflags (decodesTaken cfg seqs prefills)
  have htokens := prefillTokens_ofJobs hflags (decodesTaken cfg seqs prefills)
  constructor
  · intro h
    exact ⟨fun hne => hdecodes.1 (h.decodes (hmem.2 hne)), htokens ▸ h.prefills⟩
  · rintro ⟨hall, hle⟩
    exact ⟨fun htrue => hdecodes.2 (hall (hmem.1 htrue)), htokens ▸ hle⟩

/-- **When the batch keeps to the policy.** -/
theorem build_decodesFirst_iff (cfg : DistributedLoopConfig) {seqs : List DistributedSequence}
    (hids : (seqs.map (·.seqId)).Nodup) :
    DecodesFirst cfg seqs (build cfg seqs) ↔ Roomy cfg seqs := by
  obtain ⟨prefills, heq, htaken, -⟩ := build_taken cfg seqs
  rw [heq, decodesFirst_iff hids htaken]
  have htokens := htaken.tokens
  have hsize := htaken.size
  have hall := htaken.all
  have hnone := htaken.none
  have hzero : jobTokens [] = 0 := rfl
  rw [full_ofJobs] at hnone
  rw [hzero, Nat.zero_add, Nat.zero_add] at htokens
  rw [hzero, Nat.zero_add] at hall
  simp only [hzero, List.length_nil, Nat.sub_zero, Nat.zero_add, ge_iff_le, Nat.le_zero_eq]
    at htokens hsize hall hnone
  unfold Roomy
  generalize seqs.filter (·.unfed) = prompts at *
  generalize seqs.filter (·.prefillDone) = decodes at *
  -- prompts that fit in number are all among the first ones
  have hfirst : prompts.length ≤ cfg.maxBatchSize →
      shares cfg (prompts.take cfg.maxBatchSize) = shares cfg prompts :=
    fun hle => by rw [List.take_of_length_le hle]
  constructor
  · rintro ⟨hroom, hle⟩
    by_cases hprompts : prefills = []
    · rcases hnone.1 hprompts with hnil | hlimit | hlimit
      · exact .inr (.inr (.inl hnil))
      · exact .inl hlimit
      · exact .inr (.inl hlimit)
    · refine .inr (.inr (.inr ⟨htokens ▸ hle, ?_⟩))
      by_cases hdecodes : decodes = []
      · exact .inl hdecodes
      · -- there is room left, so every prompt was taken whole
        have hpos := List.length_pos_iff.2 hdecodes
        have hfits := hroom hprompts
        exact .inr ⟨by omega, by omega⟩
  · intro hroomy
    have hempty : cfg.maxBatchTokens = 0 ∨ cfg.maxBatchSize = 0 ∨ prompts = [] → prefills = [] := by
      rintro (hlimit | hlimit | hnil)
      · exact hnone.2 (.inr (.inl hlimit))
      · exact hnone.2 (.inr (.inr hlimit))
      · exact hnone.2 (.inl hnil)
    by_cases hprompts : prefills = []
    · refine ⟨fun hne => absurd hprompts hne, ?_⟩
      rw [hprompts, hzero]
      exact Nat.zero_le _
    · have hmain := ((hroomy.resolve_left fun h => hprompts (hempty (.inl h))).resolve_left
        fun h => hprompts (hempty (.inr (.inl h)))).resolve_left
        fun h => hprompts (hempty (.inr (.inr h)))
      obtain ⟨hle, hdecodes⟩ := hmain
      refine ⟨fun _ => ?_, htokens ▸ hle⟩
      rcases hdecodes with hnil | ⟨hfits, hcount⟩
      · rw [hnil]
        exact Nat.zero_le _
      · by_cases hpos : decodes = []
        · rw [hpos]
          exact Nat.zero_le _
        · omega

/-- Two prompts of which two tokens are let in at once, and a decode. -/
def twoPrompts : List DistributedSequence :=
  [⟨1, 4, ⟨0, 0, 1, none⟩, [], 3, [], [5, 6, 7], false, by decide⟩,
    ⟨2, 4, ⟨0, 0, 1, none⟩, [], 3, [], [5, 6, 7], false, by decide⟩,
    ⟨3, 4, ⟨0, 0, 1, none⟩, [], 3, [9], [], true, by decide⟩]

/-- The prompts fill the batch: the decode is left out, and there are twice
as many prompt tokens as the limit says. -/
theorem prompts_crowd_out_decode :
    build ⟨4, 4, 2, 0, true⟩ twoPrompts =
        { seqIds := [1, 2], isPrefill := [true, true], allTokenIds := [5, 6, 5, 6]
          metas := [⟨1, 2, [0, 1]⟩, ⟨2, 2, [0, 1]⟩], totalTokens := 4 } ∧
      ¬ DecodesFirst ⟨4, 4, 2, 0, true⟩ twoPrompts (build ⟨4, 4, 2, 0, true⟩ twoPrompts) := by
  refine ⟨by decide, fun h => ?_⟩
  exact absurd h.prefills (by decide)

/-- With room for three tokens of each prompt and the decode, all is well. -/
theorem build_decodesFirst_twoPrompts :
    (twoPrompts.map (·.seqId)).Nodup ∧ Roomy ⟨4, 8, 6, 0, true⟩ twoPrompts ∧
      DecodesFirst ⟨4, 8, 6, 0, true⟩ twoPrompts (build ⟨4, 8, 6, 0, true⟩ twoPrompts) :=
  have hroomy : Roomy ⟨4, 8, 6, 0, true⟩ twoPrompts := by
    unfold Roomy
    decide
  ⟨by decide, hroomy, (build_decodesFirst_iff ⟨4, 8, 6, 0, true⟩ (by decide)).2 hroomy⟩

end DistributedBatch

end Fracture
