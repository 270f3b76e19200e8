import Fracture.Engine.Attempt
import Fracture.Scheduler.Loop
import Fracture.Scheduler.Plan

/-!
# The batch of a decision

The slices made from a decision have a sequence each, and no two have
the same cache. So a forward pass that comes through moves the cached
length of every running sequence on by the tokens of its own job.
-/

namespace Fracture

open Assoc Effect PagedKvCacheManager BatchScheduler

variable {R W F : Type}

/-- The tokens a decision feeds to one sequence. -/
def SchedulerDecision.tokensOf (d : SchedulerDecision) (id : ℕ) : ℕ :=
  ((d.prefillsOf id).flatMap (·.tokenIds)).length + (d.decodesOf id).length

theorem SchedulerDecision.tokensOf_eq_of_shareOf (d : SchedulerDecision)
    {events : List (ℕ × GenerationEvent)} {id : ℕ} {share : Share}
    (h : d.shareOf events id = share) :
    d.tokensOf id = (share.prefills.flatMap (·.tokenIds)).length + share.decodes.length := by
  rw [← h]
  rfl

theorem mem_batchEntries {s : BatchScheduler} {d : SchedulerDecision} {entry : BatchEntry} :
    entry ∈ batchEntries s d ↔
      (∃ pf ∈ d.prefills, ∃ seq, s.active.lookup pf.seqId = some seq ∧
        entry = ⟨pf.seqId, true, ⟨seq.handle, pf.tokenIds, pf.positions⟩⟩) ∨
      ∃ dj ∈ d.decodes, ∃ seq, s.active.lookup dj.seqId = some seq ∧
        entry = ⟨dj.seqId, false, ⟨seq.handle, [dj.tokenId], [dj.position]⟩⟩ := by
  simp only [batchEntries, List.mem_append, List.mem_filterMap, Option.map_eq_some_iff,
    eq_comm (a := entry)]

section Entries

variable {s s' : BatchScheduler} {closed : ℕ → Bool} {c c' : PagedKvCacheManager R}
  {d : SchedulerDecision} {events : List (ℕ × GenerationEvent)} {entry : BatchEntry} {id : ℕ}

theorem mem_prefillsOf {pf : PrefillJob} :
    pf ∈ d.prefillsOf id ↔ pf ∈ d.prefills ∧ pf.seqId = id := by
  simp [SchedulerDecision.prefillsOf]

theorem mem_decodesOf {dj : DecodeJob} : dj ∈ d.decodesOf id ↔ dj ∈ d.decodes ∧ dj.seqId = id := by
  simp [SchedulerDecision.decodesOf]

/-- An entry of the batch and the sequence it is for, as the decision left it. -/
structure EntryOf (s : BatchScheduler) (d : SchedulerDecision) (entry : BatchEntry)
    (seq : ActiveSequence) : Prop where
  lookup : s.active.lookup entry.seqId = some seq
  handle : entry.slice.handle = seq.handle
  tokens : entry.slice.tokenIds.length = d.tokensOf entry.seqId
  decoding : entry.isPrefill = false → seq.remainingPrefill = []

variable (h : Planned s closed c d s' c' events)
include h

/-- **Every entry is its sequence's one job.** -/
theorem BatchScheduler.Planned.entryOf (hentry : entry ∈ batchEntries s' d) :
    ∃ seq, EntryOf s' d entry seq := by
  rcases mem_batchEntries.1 hentry with ⟨pf, hpf, seq, hseq, rfl⟩ | ⟨dj, hdj, seq, hseq, rfl⟩
  · obtain ⟨hshare, -⟩ := (h.each pf.seqId).of_mem_prefills (mem_prefillsOf.2 ⟨hpf, rfl⟩)
    refine ⟨seq, hseq, rfl, ?_, fun hfalse => by cases hfalse⟩
    rw [d.tokensOf_eq_of_shareOf hshare]
    simp
  · obtain ⟨hshare, _, -, hafter, hdone, -⟩ :=
      (h.each dj.seqId).of_mem_decodes (mem_decodesOf.2 ⟨hdj, rfl⟩)
    cases hseq.symm.trans hafter
    refine ⟨seq, hseq, rfl, ?_, fun _ => hdone⟩
    rw [d.tokensOf_eq_of_shareOf hshare]
    simp

/-- The sequences of a batch are running ones. -/
theorem BatchScheduler.Planned.lookup_entries : ∀ entry ∈ batchEntries s' d, ∃ seq,
    s'.active.lookup entry.seqId = some seq ∧ seq.handle = entry.slice.handle := by
  intro entry hentry
  obtain ⟨seq, hof⟩ := h.entryOf hentry
  exact ⟨seq, hof.lookup, hof.handle.symm⟩

/-- Where a batch decodes, the prompt is through. -/
theorem BatchScheduler.Planned.decoding_entries : ∀ entry ∈ batchEntries s' d, ∀ {seq},
    s'.active.lookup entry.seqId = some seq → entry.isPrefill = false →
      seq.remainingPrefill = [] := by
  intro entry hentry seq hseq hflag
  obtain ⟨seq', hof⟩ := h.entryOf hentry
  cases hseq.symm.trans hof.lookup
  exact hof.decoding hflag

/-- No sequence has two entries. -/
theorem BatchScheduler.Planned.nodup_entries :
    ((batchEntries s' d).map (·.seqId)).Nodup := by
  have hsub : ((batchEntries s' d).map (·.seqId)).Sublist
      (d.prefills.map (·.seqId) ++ d.decodes.map (·.seqId)) := by
    rw [batchEntries, List.map_append]
    refine List.Sublist.append (sublist_map_filterMap _ (fun {pf entry} hentry => ?_) _)
      (sublist_map_filterMap _ (fun {dj entry} hentry => ?_) _)
    · obtain ⟨seq, -, rfl⟩ := Option.map_eq_some_iff.1 hentry
      rfl
    · obtain ⟨seq, -, rfl⟩ := Option.map_eq_some_iff.1 hentry
      rfl
  refine hsub.nodup (List.nodup_iff_count_le_one.2 fun id => ?_)
  have hcount : ∀ {α : Type} (jobs : List α) (idOf : α → ℕ),
      (jobs.map idOf).count id = (jobs.filter (idOf · = id)).length := by
    intro α jobs idOf
    rw [List.count, List.countP_map, List.countP_eq_length_filter]
    congr 2
  rw [List.count_append, hcount, hcount]
  exact (h.each id).length_le

/-- A job of the decision has its entry in the batch. -/
theorem BatchScheduler.Planned.exists_entry (hjobs : d.prefillsOf id ≠ [] ∨ d.decodesOf id ≠ []) :
    ∃ entry ∈ batchEntries s' d, entry.seqId = id := by
  rcases hjobs with hjobs | hjobs
  · obtain ⟨pf, hpf⟩ := List.exists_mem_of_ne_nil _ hjobs
    obtain ⟨-, seq, hseq, -⟩ := (h.each id).of_mem_prefills hpf
    obtain ⟨hmem, rfl⟩ := mem_prefillsOf.1 hpf
    exact ⟨_, mem_batchEntries.2 (.inl ⟨pf, hmem, seq, hseq, rfl⟩), rfl⟩
  · obtain ⟨dj, hdj⟩ := List.exists_mem_of_ne_nil _ hjobs
    obtain ⟨-, seq, -, hseq, -⟩ := (h.each id).of_mem_decodes hdj
    obtain ⟨hmem, rfl⟩ := mem_decodesOf.1 hdj
    exact ⟨_, mem_batchEntries.2 (.inr ⟨dj, hmem, seq, hseq, rfl⟩), rfl⟩

/-- Where there is a token there is an entry. -/
theorem BatchScheduler.Planned.entries_ne_nil (htotal : d.totalTokens ≠ 0) :
    batchEntries s' d ≠ [] := by
  have hjobs : jobTokens d ≠ 0 := by rwa [← h.total]
  have hsome : d.prefills ≠ [] ∨ d.decodes ≠ [] := by
    by_contra hnone
    push Not at hnone
    simp [jobTokens, hnone] at hjobs
  rcases hsome with hne | hne
  · obtain ⟨pf, hpf⟩ := List.exists_mem_of_ne_nil _ hne
    obtain ⟨entry, hentry, -⟩ := h.exists_entry
      (.inl (List.ne_nil_of_mem (mem_prefillsOf.2 ⟨hpf, rfl⟩)))
    exact List.ne_nil_of_mem hentry
  · obtain ⟨dj, hdj⟩ := List.exists_mem_of_ne_nil _ hne
    obtain ⟨entry, hentry, -⟩ := h.exists_entry
      (.inr (List.ne_nil_of_mem (mem_decodesOf.2 ⟨hdj, rfl⟩)))
    exact List.ne_nil_of_mem hentry

/-- No two slices of a decision have the same cache. -/
theorem BatchScheduler.Planned.nodup_handles :
    (((batchEntries s' d).map (·.slice)).map (·.handle)).Nodup := by
  rw [List.map_map]
  refine List.Nodup.map_on (fun entry hentry entry' hentry' heq => ?_) h.nodup_entries.of_map
  obtain ⟨seq, hof⟩ := h.entryOf hentry
  obtain ⟨seq', hof'⟩ := h.entryOf hentry'
  have hid := h.apart hof.lookup hof'.lookup (hof.handle.symm.trans (heq.trans hof'.handle))
  exact List.inj_on_of_nodup_map h.nodup_entries hentry hentry' hid

/-- A running sequence without a job has no slice in the batch. -/
theorem BatchScheduler.Planned.handle_notMem {seq : ActiveSequence}
    (hseq : s'.active.lookup id = some seq)
    (hnone : ∀ entry ∈ batchEntries s' d, entry.seqId ≠ id) :
    seq.handle ∉ ((batchEntries s' d).map (·.slice)).map (·.handle) := by
  intro hmem
  obtain ⟨slice, hslice, heq⟩ := List.mem_map.1 hmem
  obtain ⟨entry, hentry, rfl⟩ := List.mem_map.1 hslice
  obtain ⟨seq', hof⟩ := h.entryOf hentry
  exact hnone entry hentry (h.apart hof.lookup hseq (hof.handle.symm.trans heq))

end Entries

end Fracture
