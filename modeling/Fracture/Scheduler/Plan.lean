import Fracture.PagedCache.Views
import Fracture.Scheduler.Model

/-!
# What a decision holds for each sequence

A decision is built by three loops that share their counters. Seen from
one sequence it is simple: the sequence is left alone, decodes a token,
prefills the next chunk of its prompt, or is admitted with the first one
(`Scheduled`). The loops are followed by one invariant, `Midway`, which
says this of every sequence and keeps apart the ids a loop has still to
come to.
-/

namespace Fracture

open Assoc Effect PagedKvCacheManager

variable {R W F : Type}

/-- The prefill jobs of one sequence. -/
def SchedulerDecision.prefillsOf (d : SchedulerDecision) (id : ℕ) : List PrefillJob :=
  d.prefills.filter (·.seqId = id)

/-- The decode jobs of one sequence. -/
def SchedulerDecision.decodesOf (d : SchedulerDecision) (id : ℕ) : List DecodeJob :=
  d.decodes.filter (·.seqId = id)

/-- The events sent to one sequence's client. -/
def eventsOf (id : ℕ) (events : List (ℕ × GenerationEvent)) : List GenerationEvent :=
  (events.filter (·.1 = id)).map (·.2)

theorem eventsOf_append (id : ℕ) (events more : List (ℕ × GenerationEvent)) :
    eventsOf id (events ++ more) = eventsOf id events ++ eventsOf id more := by
  simp [eventsOf]

theorem eventsOf_singleton (id g : ℕ) (event : GenerationEvent) :
    eventsOf id [(g, event)] = if g = id then [event] else [] := by
  by_cases h : g = id <;> simp [eventsOf, h]

variable {id : ℕ} {events : List (ℕ × GenerationEvent)}

theorem eventsOf_eq_nil (h : id ∉ events.map (·.1)) : eventsOf id events = [] := by
  rw [eventsOf, filter_key_eq_nil h, List.map_nil]

/-- Among events for different sequences, each has its own. -/
theorem eventsOf_of_mem (hnodup : (events.map (·.1)).Nodup) {event : GenerationEvent}
    (hmem : (id, event) ∈ events) : eventsOf id events = [event] := by
  rw [eventsOf, filter_key_eq_singleton hnodup hmem, List.map_singleton]

/-- One sequence's share of a decision: its jobs and its events. -/
@[ext] structure Share where
  prefills : List PrefillJob := []
  decodes : List DecodeJob := []
  events : List GenerationEvent := []

/-- The share of a sequence. -/
def SchedulerDecision.shareOf (d : SchedulerDecision) (events : List (ℕ × GenerationEvent))
    (id : ℕ) : Share :=
  { prefills := d.prefillsOf id, decodes := d.decodesOf id, events := eventsOf id events }

/-! ## Handles -/

/-- Every running sequence has a live cache of its own, and no other
cache is live. -/
structure Housed (active : AList fun _ : ℕ => ActiveSequence) (c : PagedKvCacheManager R) :
    Prop where
  seqId : ∀ {id seq}, active.lookup id = some seq → seq.seqId = id
  live : ∀ {id seq}, active.lookup id = some seq → (c.lenOf seq.handle).isSome
  apart : ∀ {id id' seq seq'}, active.lookup id = some seq → active.lookup id' = some seq' →
    seq.handle = seq'.handle → id = id'
  only : ∀ {h}, (c.lenOf h).isSome → ∃ id seq, active.lookup id = some seq ∧ seq.handle = h

namespace Housed

variable {active : AList fun _ : ℕ => ActiveSequence} {c c' : PagedKvCacheManager R} {id : ℕ}
  {seq seq' : ActiveSequence} (h : Housed active c)
include h

/-- What is live is all that matters of the cache. -/
theorem congr (hlive : ∀ g, (c'.lenOf g).isSome = (c.lenOf g).isSome) : Housed active c' :=
  ⟨h.seqId, fun hseq => hlive _ ▸ h.live hseq, h.apart, fun hg => h.only (hlive _ ▸ hg)⟩

/-- A running sequence may change, but for its id and its handle. -/
theorem update (hseq : active.lookup id = some seq) (hid : seq'.seqId = seq.seqId)
    (hhandle : seq'.handle = seq.handle) : Housed (active.insert id seq') c := by
  -- Every entry has the id and the handle of the one it replaces.
  have hold : ∀ {g gseq}, (active.insert id seq').lookup g = some gseq →
      ∃ gseq₀, active.lookup g = some gseq₀ ∧ gseq.handle = gseq₀.handle ∧
        gseq.seqId = gseq₀.seqId := by
    intro g gseq hg
    rcases lookup_insert_eq_some.1 hg with ⟨rfl, rfl⟩ | ⟨-, hg⟩
    · exact ⟨seq, hseq, hhandle, hid⟩
    · exact ⟨gseq, hg, rfl, rfl⟩
  refine ⟨fun hg => ?_, fun hg => ?_, fun hg hg' heq => ?_, fun hlive => ?_⟩
  · obtain ⟨gseq₀, hg₀, -, heq⟩ := hold hg
    exact heq.trans (h.seqId hg₀)
  · obtain ⟨gseq₀, hg₀, heq, -⟩ := hold hg
    exact heq ▸ h.live hg₀
  · obtain ⟨g₀, hg₀, heq₀, -⟩ := hold hg
    obtain ⟨g₁, hg₁, heq₁, -⟩ := hold hg'
    exact h.apart hg₀ hg₁ (heq₀.symm.trans (heq.trans heq₁))
  · obtain ⟨g, gseq, hg, rfl⟩ := h.only hlive
    by_cases hgid : g = id
    · subst hgid
      cases hseq.symm.trans hg
      exact ⟨g, seq', AList.lookup_insert _, hhandle⟩
    · exact ⟨g, gseq, by rwa [AList.lookup_insert_ne hgid], rfl⟩

/-- A new sequence moves into a cache that was just allocated. -/
theorem enter {handle : CacheHandle} (hok : AllocOk c handle c') (hnew : c.lenOf handle = none)
    (hid : seq.seqId = id) (hhandle : seq.handle = handle) (hnotMem : active.lookup id = none) :
    Housed (active.insert id seq) c' := by
  have hne : ∀ {g gseq}, active.lookup g = some gseq → gseq.handle ≠ handle := by
    rintro g gseq hg rfl
    have hlive := h.live hg
    rw [hnew] at hlive
    cases hlive
  refine ⟨fun hg => ?_, fun hg => ?_, fun {g g' gseq gseq'} hg hg' heq => ?_, fun {g} hlive => ?_⟩
  · rcases lookup_insert_eq_some.1 hg with ⟨rfl, rfl⟩ | ⟨-, hg⟩
    · exact hid
    · exact h.seqId hg
  · rcases lookup_insert_eq_some.1 hg with ⟨rfl, rfl⟩ | ⟨-, hg⟩
    · rw [hhandle, hok.live]
      rfl
    · rw [hok.others (hne hg)]
      exact h.live hg
  · rcases lookup_insert_eq_some.1 hg with ⟨rfl, rfl⟩ | ⟨-, hg₀⟩
    · rcases lookup_insert_eq_some.1 hg' with ⟨rfl, rfl⟩ | ⟨-, hg₀'⟩
      · rfl
      · exact absurd (heq.symm.trans hhandle) (hne hg₀')
    · rcases lookup_insert_eq_some.1 hg' with ⟨rfl, rfl⟩ | ⟨-, hg₀'⟩
      · exact absurd (heq.trans hhandle) (hne hg₀)
      · exact h.apart hg₀ hg₀' heq
  · by_cases hgh : g = handle
    · exact ⟨id, seq, AList.lookup_insert _, hhandle.trans hgh.symm⟩
    · rw [hok.others hgh] at hlive
      obtain ⟨g', gseq, hg', rfl⟩ := h.only hlive
      refine ⟨g', gseq, lookup_insert_eq_some.2 (.inr ⟨?_, hg'⟩), rfl⟩
      rintro rfl
      cases hnotMem.symm.trans hg'

/-- A sequence moves out and its cache is freed. -/
theorem evict (hseq : active.lookup id = some seq) (hfree : FreeOk c seq.handle c') :
    Housed (active.erase id) c' := by
  refine ⟨fun hg => h.seqId (lookup_erase_eq_some.1 hg).2, fun {g gseq} hg => ?_,
    fun hg hg' => h.apart (lookup_erase_eq_some.1 hg).2 (lookup_erase_eq_some.1 hg').2,
    fun {g} hlive => ?_⟩
  · obtain ⟨hne, hg⟩ := lookup_erase_eq_some.1 hg
    rw [hfree.others fun heq => hne (h.apart hg hseq heq)]
    exact h.live hg
  · have hgh : g ≠ seq.handle := by
      rintro rfl
      rw [hfree.gone] at hlive
      cases hlive
    rw [hfree.others hgh] at hlive
    obtain ⟨g', gseq, hg', rfl⟩ := h.only hlive
    refine ⟨g', gseq, lookup_erase_eq_some.2 ⟨?_, hg'⟩, rfl⟩
    rintro rfl
    cases hseq.symm.trans hg'
    exact hgh rfl

end Housed

/-! ## One turn of each loop -/

namespace BatchScheduler

section Turns

variable {s : BatchScheduler}

/-- The batch has room for one more decode. -/
def DecodeRoom (s : BatchScheduler) (d : SchedulerDecision) : Prop :=
  ¬ s.full d ∧ d.totalTokens < s.maxBatchTokens

/-- A turn of the decode loop stops, skips the id, or adds its decode. -/
theorem addDecodes_cons (closed : ℕ → Bool) (id : ℕ) (ids : List ℕ) (d : SchedulerDecision) :
    ¬ s.DecodeRoom d ∧ s.addDecodes closed (id :: ids) d = d ∨
    (s.active.lookup id = none ∨ closed id = true) ∧
      s.addDecodes closed (id :: ids) d = s.addDecodes closed ids d ∨
    ∃ seq, s.active.lookup id = some seq ∧ closed id = false ∧ s.DecodeRoom d ∧
      s.addDecodes closed (id :: ids) d = s.addDecodes closed ids { d with
        decodes := d.decodes ++ [decodeJob id seq], totalTokens := d.totalTokens + 1 } := by
  rw [addDecodes]
  by_cases hfull : s.full d
  · exact .inl ⟨fun hroom => hroom.1 hfull, if_pos hfull⟩
  by_cases htokens : d.totalTokens ≥ s.maxBatchTokens
  · exact .inl ⟨fun hroom => not_le.2 hroom.2 htokens, by rw [if_neg hfull, if_pos htokens]⟩
  rw [if_neg hfull, if_neg htokens]
  cases hseq : s.active.lookup id with
  | none => exact .inr (.inl ⟨.inl rfl, rfl⟩)
  | some seq =>
    cases hopen : closed id with
    | true => exact .inr (.inl ⟨.inr rfl, rfl⟩)
    | false => exact .inr (.inr ⟨seq, rfl, rfl, ⟨hfull, not_le.1 htokens⟩, rfl⟩)

/-- The batch has room for more tokens of a prompt. -/
def Room (s : BatchScheduler) (st : Building R) : Prop :=
  ¬ s.full st.decision ∧ s.batchCap st ≠ 0 ∧ s.prefillCap st ≠ 0

/-- The most tokens of a prompt of this length the batch has room for. -/
def fitting (s : BatchScheduler) (st : Building R) (len : ℕ) : ℕ :=
  min (min len (s.batchCap st)) (s.prefillCap st)

theorem fitting_le (s : BatchScheduler) (st : Building R) (len : ℕ) : s.fitting st len ≤ len := by
  unfold fitting
  omega

variable {st : Building R}

theorem Room.fitting_pos (h : s.Room st) {len : ℕ} (hlen : 0 < len) : 0 < s.fitting st len := by
  obtain ⟨-, hbatch, hprefill⟩ := h
  unfold fitting
  omega

/-- The next chunk of a prompt is in the batch. -/
def chunked (s : BatchScheduler) (st : Building R) (id : ℕ) (seq : ActiveSequence) : Building R :=
  let n := s.fitting st seq.remainingPrefill.length
  addPrefill st (chunkJob id seq n) n (afterChunk seq n)

/-- A request is in the batch, with the cache it got. -/
def entered (s : BatchScheduler) (st : Building R) (req : PendingRequest) (handle : CacheHandle)
    (cache : PagedKvCacheManager R) : Building R :=
  let n := s.fitting st req.promptTokens.length
  addPrefill { st with cache } (firstJob req handle n) n (activate req handle n)

/-- A request is turned away. -/
def turnedAway (st : Building R) (req : PendingRequest) (cache : PagedKvCacheManager R)
    (message : String) : Building R :=
  { st with cache, events := st.events ++ [(req.seqId, .error message)] }

/-- A turn of the loop over begun prompts stops, skips the id, or adds
the next chunk. -/
theorem addChunks_cons (id : ℕ) (ids : List ℕ) (st : Building R) :
    ¬ s.Room st ∧ s.addChunks (id :: ids) st = st ∨
    st.active.lookup id = none ∧ s.addChunks (id :: ids) st = s.addChunks ids st ∨
    ∃ seq, st.active.lookup id = some seq ∧ s.Room st ∧
      s.addChunks (id :: ids) st = s.addChunks ids (s.chunked st id seq) := by
  rw [addChunks]
  by_cases hfull : s.full st.decision
  · exact .inl ⟨fun hroom => hroom.1 hfull, if_pos hfull⟩
  by_cases hcaps : s.batchCap st = 0 ∨ s.prefillCap st = 0
  · exact .inl ⟨fun hroom => not_or.2 hroom.2 hcaps, by rw [if_neg hfull, if_pos hcaps]⟩
  rw [if_neg hfull, if_neg hcaps]
  cases hseq : st.active.lookup id with
  | none => exact .inr (.inl ⟨rfl, rfl⟩)
  | some seq => exact .inr (.inr ⟨seq, rfl, ⟨hfull, not_or.1 hcaps⟩, rfl⟩)

/-- The blocks the scheduler asks for before it admits a prompt. -/
def blocksNeeded (req : PendingRequest) : ℕ := (req.promptTokens.length + 15) / 16

/-- The requests the loop over the queue admits, each with the state it
finds. -/
def admissions (s : BatchScheduler) (available : ℕ) :
    List PendingRequest → Building R → List (PendingRequest × Building R)
  | [], _ => []
  | req :: rest, st =>
    if s.full st.decision then []
    else if s.batchCap st = 0 ∨ s.prefillCap st = 0 then []
    else if blocksNeeded req > available then []
    else
      match PagedKvCacheManager.alloc st.cache with
      | .error e cache =>
        let text := e.display
        admissions s available rest
          (turnedAway st req cache s!"cache allocation failed: {text}")
      | .ok handle cache => (req, st) :: admissions s available rest (s.entered st req handle cache)

/-- A turn of the loop over the queue stops, turns the request away for
want of a block, or admits it. -/
theorem addRequests_cons (available : ℕ) (req : PendingRequest) (queue : List PendingRequest)
    (st : Building R) :
    (¬ s.Room st ∨ available < blocksNeeded req) ∧
      s.addRequests available (req :: queue) st = (req :: queue, st) ∧
      s.admissions available (req :: queue) st = [] ∨
    (∃ e c' message, PagedKvCacheManager.alloc st.cache = .error e c' ∧ s.Room st ∧
      blocksNeeded req ≤ available ∧
      s.addRequests available (req :: queue) st =
        s.addRequests available queue (turnedAway st req c' message) ∧
      s.admissions available (req :: queue) st =
        s.admissions available queue (turnedAway st req c' message)) ∨
    ∃ handle c', PagedKvCacheManager.alloc st.cache = .ok handle c' ∧ s.Room st ∧
      blocksNeeded req ≤ available ∧
      s.addRequests available (req :: queue) st =
        s.addRequests available queue (s.entered st req handle c') ∧
      s.admissions available (req :: queue) st =
        (req, st) :: s.admissions available queue (s.entered st req handle c') := by
  rw [addRequests, admissions, blocksNeeded]
  by_cases hfull : s.full st.decision
  · exact .inl ⟨.inl fun hroom => hroom.1 hfull, if_pos hfull, if_pos hfull⟩
  rw [if_neg hfull, if_neg hfull]
  by_cases hcaps : s.batchCap st = 0 ∨ s.prefillCap st = 0
  · exact .inl ⟨.inl fun hroom => not_or.2 hroom.2 hcaps, if_pos hcaps, if_pos hcaps⟩
  rw [if_neg hcaps, if_neg hcaps]
  by_cases hblocks : (req.promptTokens.length + 15) / 16 > available
  · exact .inl ⟨.inr hblocks, if_pos hblocks, if_pos hblocks⟩
  rw [if_neg hblocks, if_neg hblocks]
  have hroom : s.Room st := ⟨hfull, not_or.1 hcaps⟩
  cases halloc : PagedKvCacheManager.alloc st.cache with
  | error e c' => exact .inr (.inl ⟨e, c', _, rfl, hroom, not_lt.1 hblocks, rfl, rfl⟩)
  | ok handle c' => exact .inr (.inr ⟨handle, c', rfl, hroom, not_lt.1 hblocks, rfl, rfl⟩)

variable {ids : List ℕ} {d : SchedulerDecision}

/-- What every decode that is added keeps, the decode loop keeps. -/
theorem addDecodes_invariant {P : SchedulerDecision → Prop}
    (hadd : ∀ {d id seq}, s.active.lookup id = some seq → closed id = false → s.DecodeRoom d →
      P d → P { d with decodes := d.decodes ++ [decodeJob id seq], totalTokens := d.totalTokens + 1 })
    (h : P d) : P (s.addDecodes closed ids d) := by
  induction ids generalizing d with
  | nil => exact h
  | cons id ids ih =>
    rcases s.addDecodes_cons closed id ids d with ⟨-, hstop⟩ | ⟨-, hskip⟩ |
      ⟨seq, hseq, hopen, hroom, hmore⟩
    · rwa [hstop]
    · rw [hskip]
      exact ih h
    · rw [hmore]
      exact ih (hadd hseq hopen hroom h)

variable {P : Building R → Prop}

/-- What every chunk that is added keeps, the loop over begun prompts
keeps. -/
theorem addChunks_invariant
    (hadd : ∀ {st id seq}, st.active.lookup id = some seq → s.Room st → P st → P (s.chunked st id
      seq)) (h : P st) : P (s.addChunks ids st) := by
  induction ids generalizing st with
  | nil => exact h
  | cons id ids ih =>
    rcases s.addChunks_cons id ids st with ⟨-, hstop⟩ | ⟨-, hskip⟩ | ⟨seq, hseq, hroom, hmore⟩
    · rwa [hstop]
    · rw [hskip]
      exact ih h
    · rw [hmore]
      exact ih (hadd hseq hroom h)

/-- What every request that is turned away or admitted keeps, the loop
over the queue keeps. -/
theorem addRequests_invariant {available : ℕ} {queue : List PendingRequest}
    (hreject : ∀ {st req e c' message}, req ∈ queue →
      PagedKvCacheManager.alloc st.cache = .error e c' → P st → P (turnedAway st req c' message))
    (hadd : ∀ {st req handle c'}, req ∈ queue →
      PagedKvCacheManager.alloc st.cache = .ok handle c' → s.Room st →
      blocksNeeded req ≤ available → P st → P (s.entered st req handle c')) (h : P st) :
    P (s.addRequests available queue st).2 := by
  induction queue generalizing st with
  | nil => exact h
  | cons req queue ih =>
    have hrest : ∀ {st}, P st → P (s.addRequests available queue st).2 :=
      ih (fun hmem => hreject (.tail _ hmem)) fun hmem => hadd (.tail _ hmem)
    rcases s.addRequests_cons available req queue st with ⟨-, hstop, -⟩ |
      ⟨e, c', message, herr, -, -, hskip, -⟩ | ⟨handle, c', hok, hroom, hblocks, hmore, -⟩
    · rwa [hstop]
    · rw [hskip]
      exact hrest (hreject (.head _) herr h)
    · rw [hmore]
      exact hrest (hadd (.head _) hok hroom hblocks h)

/-- The tokens of all jobs of a decision. -/
def jobTokens (d : SchedulerDecision) : ℕ :=
  (d.prefills.map (·.tokenIds.length)).sum + d.decodes.length

theorem jobTokens_prefill (d : SchedulerDecision) (job : PrefillJob) (total : ℕ) :
    jobTokens { d with prefills := d.prefills ++ [job], totalTokens := total } =
      jobTokens d + job.tokenIds.length := by
  simp only [jobTokens, List.map_append, List.sum_append, List.map_singleton, List.sum_singleton]
  omega

theorem total_addDecodes (closed : ℕ → Bool) (ids : List ℕ) (h : d.totalTokens = jobTokens d) :
    (s.addDecodes closed ids d).totalTokens = jobTokens (s.addDecodes closed ids d) := by
  refine addDecodes_invariant (P := fun d => d.totalTokens = jobTokens d) (fun _ _ _ hd => ?_) h
  simp only [jobTokens, List.length_append, List.length_singleton] at hd ⊢
  omega

theorem total_addChunks (ids : List ℕ) (h : st.decision.totalTokens = jobTokens st.decision) :
    (s.addChunks ids st).decision.totalTokens = jobTokens (s.addChunks ids st).decision := by
  refine addChunks_invariant (P := fun st => st.decision.totalTokens = jobTokens st.decision)
    (fun {st id seq} _ _ hst => ?_) h
  have hle := s.fitting_le st seq.remainingPrefill.length
  dsimp only [chunked, addPrefill]
  rw [jobTokens_prefill, hst, chunkJob, List.length_take, Nat.min_eq_left hle]

theorem total_addRequests (available : ℕ) (queue : List PendingRequest)
    (h : st.decision.totalTokens = jobTokens st.decision) :
    (s.addRequests available queue st).2.decision.totalTokens =
      jobTokens (s.addRequests available queue st).2.decision := by
  refine addRequests_invariant (P := fun st => st.decision.totalTokens = jobTokens st.decision)
    (fun _ _ hst => hst) (fun {st req handle c'} _ _ _ _ hst => ?_) h
  have hle := s.fitting_le st req.promptTokens.length
  dsimp only [entered, addPrefill]
  rw [jobTokens_prefill, hst, firstJob, List.length_take, Nat.min_eq_left hle]

/-- The counter of a decision is the number of tokens in its jobs. -/
theorem total_schedule (s : BatchScheduler) (order : IterOrder) (closed : ℕ → Bool)
    (c : PagedKvCacheManager R) :
    (s.schedule order closed c).1.totalTokens = jobTokens (s.schedule order closed c).1 :=
  total_addRequests _ _ (total_addChunks _ (total_addDecodes _ _ rfl))

end Turns

/-! ## One sequence in a decision -/

/-- What a decision does with one sequence: its entry before, its share,
and its entry after. -/
inductive Scheduled (s : BatchScheduler) (closed : ℕ → Bool) (c c' : PagedKvCacheManager R)
    (id : ℕ) : Option ActiveSequence → Share → Option ActiveSequence → Prop
  | idle (entry) : Scheduled s closed c c' id entry {} entry
  | decode {seq} (hdone : seq.remainingPrefill = []) (hopen : closed id = false) :
    Scheduled s closed c c' id (some seq) { decodes := [decodeJob id seq] } (some seq)
  | chunk {seq n} (hpos : 0 < n) (hle : n ≤ seq.remainingPrefill.length) :
    Scheduled s closed c c' id (some seq) { prefills := [chunkJob id seq n] }
      (some (afterChunk seq n))
  | enter {req n handle} (hmem : req ∈ s.prefillQueue) (hid : req.seqId = id)
    (hle : n ≤ req.promptTokens.length) (hpos : req.promptTokens ≠ [] → 0 < n)
    (hnew : c.lenOf handle = none) (hlive : c'.lenOf handle = some 0) :
    Scheduled s closed c c' id none { prefills := [firstJob req handle n] }
      (some (activate req handle n))
  | reject {req message} (hmem : req ∈ s.prefillQueue) (hid : req.seqId = id) :
    Scheduled s closed c c' id none { events := [.error message] } none

/-- A cache to which only empty sequences were added. -/
structure Widened (c c' : PagedKvCacheManager R) : Prop where
  accounted : c'.Accounted
  lens : ∀ {h}, (c.lenOf h).isSome → c'.lenOf h = c.lenOf h
  tables : ∀ {h seq}, c.sequences.lookup h = some seq → c'.sequences.lookup h = some seq

/-- A decision in the making: each sequence's share so far, and none for
the ids still to come. -/
structure Midway (s : BatchScheduler) (closed : ℕ → Bool) (c : PagedKvCacheManager R)
    (pending : ℕ → Prop) (st : Building R) : Prop extends
    Housed st.active st.cache, Widened c st.cache where
  each : ∀ id, Scheduled s closed c st.cache id (s.active.lookup id)
    (st.decision.shareOf st.events id) (st.active.lookup id)
  untouched : ∀ {id}, pending id → st.decision.shareOf st.events id = {}

variable {s : BatchScheduler} {closed : ℕ → Bool} {c c' : PagedKvCacheManager R} {id : ℕ}
  {before after : Option ActiveSequence} {share : Share}

theorem Scheduled.eq_of_no_share (h : Scheduled s closed c c' id before {} after) :
    after = before := by
  cases h
  rfl

variable {seq : ActiveSequence}

/-- A running sequence is still there after planning, with its cache. -/
theorem Scheduled.of_some (h : Scheduled s closed c c' id (some seq) share after) :
    ∃ seq', after = some seq' ∧ seq'.handle = seq.handle := by
  cases h with
  | idle => exact ⟨seq, rfl, rfl⟩
  | decode => exact ⟨seq, rfl, rfl⟩
  | chunk => exact ⟨_, rfl, rfl⟩

/-- A sequence with an entry after planning had one, or was in the queue. -/
theorem Scheduled.known (h : Scheduled s closed c c' id before share (some seq)) :
    (∃ old, before = some old) ∨ ∃ req ∈ s.prefillQueue, req.seqId = id := by
  cases h with
  | idle => exact .inl ⟨seq, rfl⟩
  | decode => exact .inl ⟨seq, rfl⟩
  | chunk => exact .inl ⟨_, rfl⟩
  | enter hmem hid => exact .inr ⟨_, hmem, hid⟩

/-- The one prefill job of a sequence. -/
inductive Prefilling (s : BatchScheduler) (c c' : PagedKvCacheManager R) (id : ℕ)
    (pf : PrefillJob) : Option ActiveSequence → ActiveSequence → Prop
  | chunk {seq n} (hpos : 0 < n) (hle : n ≤ seq.remainingPrefill.length)
    (hpf : pf = chunkJob id seq n) : Prefilling s c c' id pf (some seq) (afterChunk seq n)
  | enter {req n handle} (hmem : req ∈ s.prefillQueue) (hid : req.seqId = id)
    (hle : n ≤ req.promptTokens.length) (hpos : req.promptTokens ≠ [] → 0 < n)
    (hnew : c.lenOf handle = none) (hlive : c'.lenOf handle = some 0)
    (hpf : pf = firstJob req handle n) : Prefilling s c c' id pf none (activate req handle n)

variable {pf : PrefillJob}

section

variable (h : Scheduled s closed c c' id before share after)
include h

theorem Scheduled.length_le : share.prefills.length + share.decodes.length ≤ 1 := by
  cases h <;> simp

theorem Scheduled.of_mem_prefills (hpf : pf ∈ share.prefills) : share = { prefills := [pf] } ∧
      ∃ seq, after = some seq ∧ Prefilling s c c' id pf before seq := by
  cases h with
  | chunk hpos hle =>
    rw [List.mem_singleton] at hpf
    exact ⟨by rw [hpf], _, rfl, .chunk hpos hle hpf⟩
  | enter hmem hid hle hpos hnew hlive =>
    rw [List.mem_singleton] at hpf
    exact ⟨by rw [hpf], _, rfl, .enter hmem hid hle hpos hnew hlive hpf⟩
  | idle => cases hpf
  | decode => cases hpf
  | reject => cases hpf

theorem Scheduled.of_mem_decodes {dj : DecodeJob} (hdj : dj ∈ share.decodes) :
    share = { decodes := [dj] } ∧ ∃ seq, before = some seq ∧ after = some seq ∧
      seq.remainingPrefill = [] ∧ closed id = false ∧ dj = decodeJob id seq := by
  cases h with
  | decode hdone hopen =>
    rw [List.mem_singleton] at hdj
    exact ⟨by rw [hdj], _, rfl, rfl, hdone, hopen, hdj⟩
  | idle => cases hdj
  | chunk => cases hdj
  | enter => cases hdj
  | reject => cases hdj

theorem Scheduled.widen {c'' : PagedKvCacheManager R}
    (hlens : ∀ {h}, (c'.lenOf h).isSome → c''.lenOf h = c'.lenOf h) :
    Scheduled s closed c c'' id before share after := by
  cases h with
  | idle => exact .idle _
  | decode hdone hopen => exact .decode hdone hopen
  | chunk hpos hle => exact .chunk hpos hle
  | enter hmem hid hle hpos hnew hlive =>
    exact .enter hmem hid hle hpos hnew ((hlens (by rw [hlive]; rfl)).trans hlive)
  | reject hmem hid => exact .reject hmem hid

end

theorem shareOf_prefill (d : SchedulerDecision) (events : List (ℕ × GenerationEvent))
    (job : PrefillJob) (total id : ℕ) :
    { d with prefills := d.prefills ++ [job], totalTokens := total : SchedulerDecision }.shareOf
      events id = { d.shareOf events id with
        prefills := d.prefillsOf id ++ if job.seqId = id then [job] else [] } := by
  by_cases h : job.seqId = id <;>
    simp [SchedulerDecision.shareOf, SchedulerDecision.prefillsOf, SchedulerDecision.decodesOf, h]

theorem shareOf_decode (d : SchedulerDecision) (events : List (ℕ × GenerationEvent))
    (job : DecodeJob) (total id : ℕ) :
    { d with decodes := d.decodes ++ [job], totalTokens := total : SchedulerDecision }.shareOf
      events id = { d.shareOf events id with
        decodes := d.decodesOf id ++ if job.seqId = id then [job] else [] } := by
  by_cases h : job.seqId = id <;>
    simp [SchedulerDecision.shareOf, SchedulerDecision.prefillsOf, SchedulerDecision.decodesOf, h]

namespace Midway

variable {pending pending' : ℕ → Prop} {st : Building R}

theorem weaken (h : Midway s closed c pending st) (hsub : ∀ id, pending' id → pending id) :
    Midway s closed c pending' st :=
  ⟨h.toHoused, h.toWidened, h.each, fun hid => h.untouched (hsub _ hid)⟩

theorem lookup_of_pending (h : Midway s closed c pending st) (hid : pending id) :
    st.active.lookup id = s.active.lookup id := by
  have heach := h.each id
  rw [h.untouched hid] at heach
  exact heach.eq_of_no_share

variable {ids todo : List ℕ}

section

variable (hnodup : (id :: todo).Nodup) (h : Midway s closed c (· ∈ id :: todo) st)
include hnodup h

/-- Give the sequence that comes next its share. -/
theorem give {st' : Building R}
    (hothers : ∀ g ≠ id, st'.decision.shareOf st'.events g = st.decision.shareOf st.events g ∧
      st'.active.lookup g = st.active.lookup g)
    (hcache : ∀ {h}, (st.cache.lenOf h).isSome → st'.cache.lenOf h = st.cache.lenOf h)
    (hscheduled : Scheduled s closed c st'.cache id (s.active.lookup id)
      (st'.decision.shareOf st'.events id) (st'.active.lookup id))
    (hhoused : Housed st'.active st'.cache) (hwidened : Widened c st'.cache) :
    Midway s closed c (· ∈ todo) st' := by
  refine ⟨hhoused, hwidened, fun g => ?_, fun {g} hg => ?_⟩
  · by_cases hgid : g = id
    · subst hgid
      exact hscheduled
    · rw [(hothers g hgid).1, (hothers g hgid).2]
      exact (h.each g).widen hcache
  · have hne : g ≠ id := by
      rintro rfl
      exact (List.nodup_cons.1 hnodup).1 hg
    rw [(hothers g hne).1]
    exact h.untouched (.tail _ hg)

/-- A decode job is added for the id that comes next. -/
theorem decode (hseq : s.active.lookup id = some seq) (hdone : seq.remainingPrefill = [])
    (hopen : closed id = false) (total : ℕ) :
    Midway s closed c (· ∈ todo) { st with
      decision := { st.decision with
        decodes := st.decision.decodes ++ [decodeJob id seq], totalTokens := total } } := by
  have hjob : (decodeJob id seq).seqId = id := rfl
  refine give hnodup h (fun g hg => ⟨?_, rfl⟩) (fun _ => rfl) ?_ h.toHoused h.toWidened
  · rw [shareOf_decode, hjob, if_neg hg.symm, List.append_nil]
    rfl
  · have hempty := h.untouched (.head _)
    have hdecodes : st.decision.decodesOf id = [] := congrArg Share.decodes hempty
    rw [shareOf_decode, hjob, if_pos rfl, hempty, hdecodes, h.lookup_of_pending (.head _), hseq]
    exact .decode hdone hopen

/-- A prefill job is added for the id that comes next. -/
theorem prefill {cache : PagedKvCacheManager R} {job : PrefillJob} {n : ℕ} (hjob : job.seqId = id)
    (hcache : ∀ {h}, (st.cache.lenOf h).isSome → cache.lenOf h = st.cache.lenOf h)
    (hscheduled : Scheduled s closed c cache id (s.active.lookup id) { prefills := [job] }
      (some seq))
    (hhoused : Housed (st.active.insert id seq) cache) (hwidened : Widened c cache) :
    Midway s closed c (· ∈ todo) (addPrefill { st with cache } job n seq) := by
  subst hjob
  refine give hnodup h (fun g hg => ⟨?_, AList.lookup_insert_ne hg⟩) hcache ?_ hhoused hwidened
  · dsimp only [addPrefill]
    rw [shareOf_prefill, if_neg hg.symm, List.append_nil]
    rfl
  · have hempty := h.untouched (.head _)
    have hprefills : st.decision.prefillsOf job.seqId = [] := congrArg Share.prefills hempty
    dsimp only [addPrefill]
    rw [shareOf_prefill, if_pos rfl, hempty, hprefills, AList.lookup_insert]
    exact hscheduled

end

section

variable (hnodup : (ids ++ todo).Nodup) (h : Midway s closed c (· ∈ ids ++ todo) st)
include hnodup h

/-- The decode loop. -/
theorem addDecodes
    (hdone : ∀ id ∈ ids, ∀ {seq}, s.active.lookup id = some seq → seq.remainingPrefill = []) :
    Midway s closed c (· ∈ todo)
      { st with decision := s.addDecodes closed ids st.decision } := by
  induction ids generalizing st with
  | nil => exact h
  | cons id ids ih =>
    have hrest := fun st h => @ih st (List.nodup_cons.1 hnodup).2 h fun g hg => hdone g (.tail _ hg)
    rcases s.addDecodes_cons closed id ids st.decision with ⟨-, hstop⟩ | ⟨-, hskip⟩ |
      ⟨seq, hseq, hopen, -, hadd⟩
    · rw [hstop]
      exact h.weaken fun _ hg => List.mem_append_right _ hg
    · rw [hskip]
      exact hrest _ (h.weaken fun _ hg => .tail _ hg)
    · rw [hadd]
      exact hrest _ (decode hnodup h hseq (hdone id (.head _) hseq) hopen
        (st.decision.totalTokens + 1))

/-- The loop over the prompts already begun. -/
theorem addChunks
    (hopen : ∀ id ∈ ids, ∀ {seq}, s.active.lookup id = some seq → seq.remainingPrefill ≠ []) :
    Midway s closed c (· ∈ todo) (s.addChunks ids st) := by
  induction ids generalizing st with
  | nil => exact h
  | cons id ids ih =>
    have hrest := fun st h => @ih st (List.nodup_cons.1 hnodup).2 h fun g hg => hopen g (.tail _ hg)
    rcases s.addChunks_cons id ids st with ⟨-, hstop⟩ | ⟨-, hskip⟩ | ⟨seq, hseq, hroom, hadd⟩
    · rw [hstop]
      exact h.weaken fun _ hg => List.mem_append_right _ hg
    · rw [hskip]
      exact hrest _ (h.weaken fun _ hg => .tail _ hg)
    · rw [hadd]
      have hstart : s.active.lookup id = some seq :=
        (h.lookup_of_pending (.head _)).symm.trans hseq
      have hrem := List.length_pos_iff.2 (hopen id (.head _) hstart)
      have hchunk : Scheduled s closed c st.cache id (s.active.lookup id)
          { prefills := [chunkJob id seq (s.fitting st seq.remainingPrefill.length)] }
          (some (afterChunk seq (s.fitting st seq.remainingPrefill.length))) := by
        rw [hstart]
        exact .chunk (hroom.fitting_pos hrem) (fitting_le _ _ _)
      exact hrest _ (prefill hnodup h (n := s.fitting st seq.remainingPrefill.length) rfl
        (fun _ => rfl) hchunk (h.toHoused.update hseq rfl rfl) h.toWidened)

end

/-- An allocation widens the cache. -/
theorem alloc (h : Midway s closed c pending st) {handle : CacheHandle}
    (hok : PagedKvCacheManager.alloc st.cache = .ok handle c') :
    AllocOk st.cache handle c' ∧ st.cache.lenOf handle = none ∧ Widened c c' ∧
      ∀ {g}, (st.cache.lenOf g).isSome → c'.lenOf g = st.cache.lenOf g := by
  have halloc := allocOk hok
  have hnew : st.cache.lenOf handle = none := by
    rw [halloc.handle, lenOf, AList.lookup_eq_none.2, Option.map_none]
    exact fun hmem => absurd (h.accounted.fresh _ hmem) (lt_irrefl _)
  have hacc := h.accounted.alloc
  rw [hok, state_ok] at hacc
  have hlens : ∀ {g}, (st.cache.lenOf g).isSome → c'.lenOf g = st.cache.lenOf g := by
    intro g hg
    refine halloc.others ?_
    rintro rfl
    rw [hnew] at hg
    cases hg
  refine ⟨halloc, hnew, ⟨hacc, fun hg => ?_, fun {g seq} hseq => ?_⟩, hlens⟩
  · have hsame := h.lens hg
    rw [hlens (by rwa [hsame]), hsame]
  · have hseq' := h.tables hseq
    rw [lookup_of_alloc hok, hseq']
    rintro rfl
    rw [lenOf, hseq'] at hnew
    cases hnew

/-- A request is turned away: the allocation failed. -/
theorem reject {req : PendingRequest} (hnodup : (req.seqId :: todo).Nodup)
    (h : Midway s closed c (· ∈ req.seqId :: todo) st) (hmem : req ∈ s.prefillQueue)
    (hnew : s.active.lookup req.seqId = none) {e : Fault}
    (herr : PagedKvCacheManager.alloc st.cache = .error e c') (message : String) :
    Midway s closed c (· ∈ todo) (turnedAway st req c' message) := by
  have hacc := h.accounted.alloc
  rw [herr, state_error] at hacc
  obtain ⟨-, hsame⟩ := of_alloc_error herr
  have hlens : ∀ g, c'.lenOf g = st.cache.lenOf g := fun g => by rw [lenOf, lenOf, hsame.1]
  have hshare : ∀ g, st.decision.shareOf (st.events ++ [(req.seqId, .error message)]) g =
      { st.decision.shareOf st.events g with
        events := eventsOf g st.events ++ if req.seqId = g then [.error message] else [] } := by
    intro g
    rw [SchedulerDecision.shareOf, eventsOf_append, eventsOf_singleton]
    rfl
  unfold turnedAway
  refine give hnodup h (fun g hg => ⟨?_, rfl⟩) (fun _ => hlens _) ?_
    (h.toHoused.congr fun g => by rw [hlens g]) ⟨hacc, fun hg => (hlens _).trans (h.lens hg),
      fun hseq => by rw [hsame.1]; exact h.tables hseq⟩
  · rw [hshare, if_neg hg.symm, List.append_nil]
    rfl
  · have hempty := h.untouched (.head _)
    have hevents : eventsOf req.seqId st.events = [] := congrArg Share.events hempty
    rw [hshare, if_pos rfl, hempty, hevents, h.lookup_of_pending (.head _), hnew]
    exact .reject hmem rfl

/-- The loop over the queue: what it leaves there is still to come. -/
theorem addRequests (available : ℕ) {queue : List PendingRequest}
    (hqueue : ∀ req ∈ queue, req ∈ s.prefillQueue) (hnodup : (queue.map (·.seqId)).Nodup)
    (hnew : ∀ req ∈ queue, s.active.lookup req.seqId = none)
    (h : Midway s closed c (· ∈ queue.map (·.seqId)) st) :
    (s.addRequests available queue st).1 <:+ queue ∧
      Midway s closed c (· ∈ (s.addRequests available queue st).1.map (·.seqId))
        (s.addRequests available queue st).2 := by
  induction queue generalizing st with
  | nil => exact ⟨List.suffix_rfl, h⟩
  | cons req queue ih =>
    have hrest := fun st => @ih st (fun r hr => hqueue r (.tail _ hr))
      (List.nodup_cons.1 hnodup).2 fun r hr => hnew r (.tail _ hr)
    have hstart := hnew req (.head _)
    rcases s.addRequests_cons available req queue st with ⟨-, hstop, -⟩ |
      ⟨e, c', message, herr, -, -, hskip, -⟩ | ⟨handle, c', hok, hroom, -, hadd, -⟩
    · rw [hstop]
      exact ⟨List.suffix_rfl, h⟩
    · rw [hskip]
      obtain ⟨hsuffix, hmid⟩ := hrest _ (reject hnodup h (hqueue req (.head _)) hstart herr message)
      exact ⟨hsuffix.trans (List.suffix_cons ..), hmid⟩
    · rw [hadd]
      obtain ⟨halloc, hfresh, hwidened, hlens⟩ := h.alloc hok
      have hadmitted : Scheduled s closed c c' req.seqId (s.active.lookup req.seqId)
          { prefills := [firstJob req handle (s.fitting st req.promptTokens.length)] }
          (some (activate req handle (s.fitting st req.promptTokens.length))) := by
        rw [hstart]
        refine .enter (hqueue req (.head _)) rfl (fitting_le _ _ _)
          (fun hne => hroom.fitting_pos (List.length_pos_iff.2 hne)) ?_ halloc.live
        refine Option.not_isSome_iff_eq_none.1 fun hold => ?_
        have hlen := h.lens hold
        rw [hfresh] at hlen
        rw [← hlen] at hold
        cases hold
      have hadded : Midway s closed c _ (s.entered st req handle c') :=
        prefill hnodup h rfl hlens hadmitted (h.toHoused.enter halloc hfresh rfl rfl
          ((h.lookup_of_pending (.head _)).trans hstart)) hwidened
      obtain ⟨hsuffix, hmid⟩ := hrest _ hadded
      exact ⟨hsuffix.trans (List.suffix_cons ..), hmid⟩

end Midway

/-! ## The whole decision -/

/-- The ids of the running sequences that satisfy a test. -/
def idsOf (s : BatchScheduler) (order : IterOrder) (p : ActiveSequence → Bool) : List ℕ :=
  ((s.values order).filter p).map (·.seqId)

section

variable (hids : ∀ {id seq}, s.active.lookup id = some seq → seq.seqId = id) (order : IterOrder)
  (p : ActiveSequence → Bool)
include hids order p

theorem nodup_idsOf : (s.idsOf order p).Nodup := by
  have hsub : (s.idsOf order p).Sublist ((s.values order).map (·.seqId)) :=
    List.filter_sublist.map _
  refine (hsub.trans (sublist_map_filterMap id hids _)).nodup ?_
  rw [List.map_id]
  exact (order.perm _).nodup_iff.2 s.active.nodupKeys

theorem mem_idsOf :
    id ∈ s.idsOf order p ↔ ∃ seq, s.active.lookup id = some seq ∧ p seq = true := by
  simp only [idsOf, values, List.mem_map, List.mem_filter, List.mem_filterMap]
  constructor
  · rintro ⟨seq, ⟨⟨key, -, hseq⟩, hp⟩, rfl⟩
    exact ⟨seq, hids hseq ▸ hseq, hp⟩
  · rintro ⟨seq, hseq, hp⟩
    refine ⟨seq, ⟨⟨id, ?_, hseq⟩, hp⟩, hids hseq⟩
    rw [(order.perm _).mem_iff]
    exact AList.mem_keys.2 (AList.lookup_isSome.1 (by rw [hseq]; rfl))

end

/-- The queue: no id twice, and none that is running. -/
structure Waiting (queue : List PendingRequest) (active : AList fun _ : ℕ => ActiveSequence) :
    Prop where
  nodup : (queue.map (·.seqId)).Nodup
  notActive : ∀ req ∈ queue, active.lookup req.seqId = none

/-- What a decision does, sequence by sequence. -/
structure Planned (s : BatchScheduler) (closed : ℕ → Bool) (c : PagedKvCacheManager R)
    (d : SchedulerDecision) (s' : BatchScheduler) (c' : PagedKvCacheManager R)
    (events : List (ℕ × GenerationEvent)) : Prop extends
    Housed s'.active c', Widened c c', Waiting s'.prefillQueue s'.active where
  each : ∀ id, Scheduled s closed c c' id (s.active.lookup id) (d.shareOf events id)
    (s'.active.lookup id)
  /-- What is left in the queue was in it, and has no share. -/
  queue : s'.prefillQueue.Sublist s.prefillQueue
  waiting : ∀ req ∈ s'.prefillQueue, d.shareOf events req.seqId = {}
  total : d.totalTokens = jobTokens d

/-- **A decision holds at most one job for a sequence, and it is the
sequence's next one.** -/
theorem planned (hhoused : Housed s.active c) (hacc : c.Accounted)
    (hwaiting : Waiting s.prefillQueue s.active) (order : IterOrder) (closed : ℕ → Bool) :
    Planned s closed c (s.schedule order closed c).1 (s.schedule order closed c).2.1
      (s.schedule order closed c).2.2.1 (s.schedule order closed c).2.2.2 := by
  have hdone : ∀ id ∈ s.idsOf order (·.remainingPrefill.isEmpty), ∀ {seq},
      s.active.lookup id = some seq → seq.remainingPrefill = [] := by
    intro id hid seq hseq
    obtain ⟨seq', hseq', hp⟩ := (mem_idsOf hhoused.seqId order _).1 hid
    cases hseq.symm.trans hseq'
    exact List.isEmpty_iff.1 hp
  have hopen : ∀ id ∈ s.idsOf order (!·.remainingPrefill.isEmpty), ∀ {seq},
      s.active.lookup id = some seq → seq.remainingPrefill ≠ [] := by
    intro id hid seq hseq hnil
    obtain ⟨seq', hseq', hp⟩ := (mem_idsOf hhoused.seqId order _).1 hid
    cases hseq.symm.trans hseq'
    simp [hnil] at hp
  -- A request's id is not running, and a running prompt is done or not.
  have hfresh : ∀ p, ∀ id ∈ s.idsOf order p, ∀ g ∈ s.prefillQueue.map (·.seqId), id ≠ g := by
    rintro p id hid g hg rfl
    obtain ⟨req, hreq, rfl⟩ := List.mem_map.1 hg
    obtain ⟨seq, hseq, -⟩ := (mem_idsOf hhoused.seqId order _).1 hid
    cases (hwaiting.notActive req hreq).symm.trans hseq
  have hbegun : (s.idsOf order (!·.remainingPrefill.isEmpty) ++
      s.prefillQueue.map (·.seqId)).Nodup :=
    List.nodup_append.2 ⟨nodup_idsOf hhoused.seqId order _, hwaiting.nodup, hfresh _⟩
  have hall : (s.idsOf order (·.remainingPrefill.isEmpty) ++
      (s.idsOf order (!·.remainingPrefill.isEmpty) ++ s.prefillQueue.map (·.seqId))).Nodup := by
    refine List.nodup_append.2 ⟨nodup_idsOf hhoused.seqId order _, hbegun, fun id hid g hg => ?_⟩
    rcases List.mem_append.1 hg with hg | hg
    · rintro rfl
      obtain ⟨seq, hseq, -⟩ := (mem_idsOf hhoused.seqId order _).1 hid
      exact hopen id hg hseq (hdone id hid hseq)
    · exact hfresh _ id hid g hg
  have hstart : ∀ ids : List ℕ, Midway s closed c (· ∈ ids)
      { decision := { prefills := [], decodes := [], totalTokens := 0 }, prefillTokens := 0,
        active := s.active, cache := c, events := [] } :=
    fun _ => ⟨hhoused, ⟨hacc, fun _ => rfl, fun h => h⟩, fun _ => .idle _, fun _ => rfl⟩
  obtain ⟨hsuffix, hmid⟩ := Midway.addRequests
    (c.numFreeBlocks - s.reservedBlocks c.pool.capacity) (fun _ h => h) hwaiting.nodup
    hwaiting.notActive (Midway.addChunks hbegun (Midway.addDecodes hall (hstart _) hdone) hopen)
  have hsub : (s.schedule order closed c).2.1.prefillQueue.Sublist s.prefillQueue :=
    hsuffix.sublist
  refine ⟨hmid.toHoused, hmid.toWidened, ⟨(hsub.map _).nodup hwaiting.nodup, fun req hreq => ?_⟩,
    hmid.each, hsub, fun req hreq => hmid.untouched (List.mem_map_of_mem hreq),
    s.total_schedule order closed c⟩
  exact (hmid.lookup_of_pending (List.mem_map_of_mem hreq)).trans
    (hwaiting.notActive req (hsub.subset hreq))

end BatchScheduler

end Fracture
