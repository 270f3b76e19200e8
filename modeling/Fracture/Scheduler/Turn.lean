import Fracture.Scheduler.Batch

/-!
# The loops of a turn, sequence by sequence

After the forward pass a turn samples, cleans up, and frees; after a
failed one it ends the sequences of the batch. Each of these loops is
described by what it does to one sequence (`Sampled`, `Cleaned`) and by
what it leaves of the cache (`Freed`).
-/

namespace Fracture

open Assoc Effect PagedKvCacheManager BatchScheduler

variable {R W F : Type}

/-! ## Sampling -/

/-- The tokens drawn for one sequence. -/
def drawnOf (id : ℕ) (sampled : List (ℕ × ℕ)) : List ℕ :=
  (sampled.filter (·.1 = id)).map (·.2)

theorem drawnOf_append (id : ℕ) (sampled more : List (ℕ × ℕ)) :
    drawnOf id (sampled ++ more) = drawnOf id sampled ++ drawnOf id more := by
  simp [drawnOf]

theorem drawnOf_singleton (id g token : ℕ) :
    drawnOf id [(g, token)] = if g = id then [token] else [] := by
  by_cases h : g = id <;> simp [drawnOf, h]

/-- The logits a sequence has in a batch. -/
def rowOf (id : ℕ) (pairs : List (BatchEntry × List F)) : Option (List F) :=
  (pairs.find? (·.1.seqId = id)).map (·.2)

/-- What the sampling loop does with one sequence: its entry before, the
tokens drawn, the events sent, and its entry after. -/
inductive Sampled (sample : ℕ → List F → SamplingParams → Except FractureError ℕ) (id : ℕ)
    (row : Option (List F)) : Option ActiveSequence → List ℕ → List GenerationEvent →
    Option ActiveSequence → Prop
  | skip {entry} (hskip : row = none ∨ ∀ seq, entry = some seq → seq.remainingPrefill ≠ []) :
    Sampled sample id row entry [] [] entry
  | draw {seq logits token} (hrow : row = some logits) (hdone : seq.remainingPrefill = [])
    (hok : sample id logits seq.params = .ok token) :
    Sampled sample id row (some seq) [token] (if token ∈ seq.stopTokens then [] else [.token token])
      (some (pushToken seq token))
  | fail {seq logits e message} (hrow : row = some logits) (hdone : seq.remainingPrefill = [])
    (herr : sample id logits seq.params = .error e) :
    Sampled sample id row (some seq) [] [.error message] (some { seq with maxTokens := 0 })

section Sampling

variable {st : Sampling} {entry : BatchEntry} {id : ℕ}
  (sample : ℕ → List F → SamplingParams → Except FractureError ℕ)
include sample

/-- A turn of the sampling loop skips the slice, draws, or fails to. -/
theorem sampleEntry_cases (st : Sampling) (entry : BatchEntry) (logits : List F) :
    (sampleEntry sample st entry logits = st ∧ ∀ seq, st.active.lookup entry.seqId = some seq →
      seq.remainingPrefill ≠ []) ∨
    ∃ seq, st.active.lookup entry.seqId = some seq ∧
      (entry.isPrefill = true → seq.remainingPrefill = []) ∧
      ((∃ token, sample entry.seqId logits seq.params = .ok token ∧
        sampleEntry sample st entry logits =
          { active := st.active.insert entry.seqId (pushToken seq token)
            events := st.events ++
              if token ∈ seq.stopTokens then [] else [(entry.seqId, .token token)]
            sampled := st.sampled ++ [(entry.seqId, token)] }) ∨
      ∃ e message, sample entry.seqId logits seq.params = .error e ∧
        sampleEntry sample st entry logits = { st with
          active := st.active.insert entry.seqId { seq with maxTokens := 0 }
          events := st.events ++ [(entry.seqId, .error message)] }) := by
  unfold sampleEntry
  cases hseq : st.active.lookup entry.seqId with
  | none => exact .inl ⟨rfl, by simp⟩
  | some seq =>
    dsimp only
    by_cases hskip : entry.isPrefill = true ∧ seq.remainingPrefill ≠ []
    · rw [if_pos (by simpa using hskip)]
      refine .inl ⟨rfl, fun seq' hseq' => ?_⟩
      cases hseq'
      exact hskip.2
    · rw [if_neg (by simpa using hskip)]
      refine .inr ⟨seq, rfl, fun hprefill => not_not.1 fun hrem => hskip ⟨hprefill, hrem⟩, ?_⟩
      cases hdraw : sample entry.seqId logits seq.params with
      | ok token =>
        refine .inl ⟨token, rfl, ?_⟩
        by_cases hstop : token ∈ seq.stopTokens <;> simp [hstop]
      | error e => exact .inr ⟨e, _, rfl, rfl⟩

/-- A slice of another sequence changes nothing for this one. -/
theorem sampleEntry_of_ne (st : Sampling) (logits : List F) (hne : id ≠ entry.seqId) :
    (sampleEntry sample st entry logits).active.lookup id = st.active.lookup id ∧
    drawnOf id (sampleEntry sample st entry logits).sampled = drawnOf id st.sampled ∧
    eventsOf id (sampleEntry sample st entry logits).events = eventsOf id st.events := by
  rcases sampleEntry_cases sample st entry logits with ⟨heq, -⟩ | ⟨seq, -, -, ⟨token, -, heq⟩ |
    ⟨e, message, -, heq⟩⟩
  · rw [heq]
    exact ⟨rfl, rfl, rfl⟩
  · rw [heq]
    refine ⟨AList.lookup_insert_ne hne, ?_, ?_⟩
    · rw [drawnOf_append, drawnOf_singleton, if_neg hne.symm, List.append_nil]
    · rw [eventsOf_append]
      split
      · exact List.append_nil _
      · rw [eventsOf_singleton, if_neg hne.symm, List.append_nil]
  · rw [heq]
    refine ⟨AList.lookup_insert_ne hne, rfl, ?_⟩
    rw [eventsOf_append, eventsOf_singleton, if_neg hne.symm, List.append_nil]

/-- A slice of this sequence. -/
theorem sampleEntry_self (logits : List F)
    (hdecoding : ∀ {seq}, st.active.lookup entry.seqId = some seq → entry.isPrefill = false →
      seq.remainingPrefill = []) :
    ∃ drawn events, Sampled sample entry.seqId (some logits) (st.active.lookup entry.seqId) drawn
        events ((sampleEntry sample st entry logits).active.lookup entry.seqId) ∧
      drawnOf entry.seqId (sampleEntry sample st entry logits).sampled =
        drawnOf entry.seqId st.sampled ++ drawn ∧
      eventsOf entry.seqId (sampleEntry sample st entry logits).events =
        eventsOf entry.seqId st.events ++ events := by
  rcases sampleEntry_cases sample st entry logits with ⟨heq, hskip⟩ | ⟨seq, hseq, hprefill, hcases⟩
  · rw [heq]
    exact ⟨[], [], .skip (.inr hskip), (List.append_nil _).symm, (List.append_nil _).symm⟩
  · have hdone : seq.remainingPrefill = [] := by
      cases hflag : entry.isPrefill with
      | true => exact hprefill hflag
      | false => exact hdecoding hseq hflag
    rcases hcases with ⟨token, hok, heq⟩ | ⟨e, message, herr, heq⟩
    · rw [heq, hseq, AList.lookup_insert, drawnOf_append, drawnOf_singleton, if_pos rfl,
        eventsOf_append]
      refine ⟨_, _, .draw rfl hdone hok, rfl, ?_⟩
      split
      · rfl
      · rw [eventsOf_singleton, if_pos rfl]
    · rw [heq, hseq, AList.lookup_insert, eventsOf_append, eventsOf_singleton, if_pos rfl]
      exact ⟨_, _, .fail rfl hdone herr, (List.append_nil _).symm, rfl⟩

/-- **The sampling loop, seen from one sequence.** -/
theorem sampleAll_each (st : Sampling) {pairs : List (BatchEntry × List F)}
    (hnodup : (pairs.map (·.1.seqId)).Nodup)
    (hdecoding : ∀ p ∈ pairs, ∀ {seq}, st.active.lookup p.1.seqId = some seq →
      p.1.isPrefill = false → seq.remainingPrefill = []) (id : ℕ) :
    ∃ drawn events, Sampled sample id (rowOf id pairs) (st.active.lookup id) drawn events
        ((pairs.foldl (fun st p => sampleEntry sample st p.1 p.2) st).active.lookup id) ∧
      drawnOf id (pairs.foldl (fun st p => sampleEntry sample st p.1 p.2) st).sampled =
        drawnOf id st.sampled ++ drawn ∧
      eventsOf id (pairs.foldl (fun st p => sampleEntry sample st p.1 p.2) st).events =
        eventsOf id st.events ++ events := by
  induction pairs generalizing st with
  | nil => exact ⟨[], [], .skip (.inl rfl), (List.append_nil _).symm, (List.append_nil _).symm⟩
  | cons p pairs ih =>
    obtain ⟨hnotMem, hnodup'⟩ := List.nodup_cons.1 hnodup
    have hrest : ∀ q ∈ pairs, q.1.seqId ≠ p.1.seqId := fun q hq heq =>
      hnotMem (List.mem_map.2 ⟨q, hq, heq⟩)
    obtain ⟨drawn, events, hlater, hdrawn, hevents⟩ :=
      ih (sampleEntry sample st p.1 p.2) hnodup' fun q hq seq hseq =>
        hdecoding q (.tail _ hq) (by rwa [(sampleEntry_of_ne _ _ _ (hrest q hq)).1] at hseq)
    rw [List.foldl_cons]
    by_cases hid : p.1.seqId = id
    · subst hid
      -- The loop does not come back to this sequence.
      have hnone : rowOf p.1.seqId pairs = none := by
        rw [rowOf, Option.map_eq_none_iff, List.find?_eq_none]
        exact fun q hq => by simpa using hrest q hq
      have hrow : rowOf p.1.seqId (p :: pairs) = some p.2 := by simp [rowOf]
      rw [hnone] at hlater
      obtain ⟨drawn', events', hfirst, hdrawn', hevents'⟩ :=
        sampleEntry_self sample p.2 (hdecoding p (.head _))
      generalize hafter : (pairs.foldl (fun st p => sampleEntry sample st p.1 p.2)
        (sampleEntry sample st p.1 p.2)).active.lookup p.1.seqId = after at hlater ⊢
      generalize (sampleEntry sample st p.1 p.2).active.lookup p.1.seqId = mid at hlater hfirst
      cases hlater with
      | skip =>
        rw [List.append_nil] at hdrawn hevents
        rw [hrow, hdrawn, hevents]
        exact ⟨drawn', events', hfirst, hdrawn', hevents'⟩
      | draw hsome => cases hsome
      | fail hsome => cases hsome
    · have hrow : rowOf id (p :: pairs) = rowOf id pairs := by simp [rowOf, hid]
      obtain ⟨hlook, hdrawn', hevents'⟩ :=
        sampleEntry_of_ne sample st p.2 (Ne.symm hid)
      rw [hlook] at hlater
      rw [hdrawn'] at hdrawn
      rw [hevents'] at hevents
      rw [hrow]
      exact ⟨drawn, events, hlater, hdrawn, hevents⟩

end Sampling

/-- A sequence that was sampled for keeps its id, its handle and its prompt. -/
theorem Sampled.same {sample : ℕ → List F → SamplingParams → Except FractureError ℕ} {id : ℕ}
    {row : Option (List F)} {before after : Option ActiveSequence} {drawn : List ℕ}
    {events : List GenerationEvent} (h : Sampled sample id row before drawn events after)
    {seq' : ActiveSequence} (hafter : after = some seq') :
    ∃ seq, before = some seq ∧ seq'.seqId = seq.seqId ∧ seq'.handle = seq.handle ∧
      seq'.remainingPrefill = seq.remainingPrefill := by
  cases h with
  | skip => exact ⟨seq', hafter, rfl, rfl, rfl⟩
  | draw =>
    cases hafter
    exact ⟨_, rfl, rfl, rfl, rfl⟩
  | fail =>
    cases hafter
    exact ⟨_, rfl, rfl, rfl, rfl⟩

variable {c : PagedKvCacheManager R}

/-- Sampling leaves every sequence in its cache. -/
theorem sampleAll_housed (sample : ℕ → List F → SamplingParams → Except FractureError ℕ)
    (st : Sampling) (h : Housed st.active c) (pairs : List (BatchEntry × List F)) :
    Housed (pairs.foldl (fun st p => sampleEntry sample st p.1 p.2) st).active c := by
  induction pairs generalizing st with
  | nil => exact h
  | cons p pairs ih =>
    refine ih _ ?_
    dsimp only
    rcases sampleEntry_cases sample st p.1 p.2 with ⟨heq, -⟩ | ⟨seq, hseq, -, ⟨token, -, heq⟩ |
      ⟨e, message, -, heq⟩⟩
    · rwa [heq]
    · rw [heq]
      exact h.update hseq rfl rfl
    · rw [heq]
      exact h.update hseq rfl rfl

/-! ## Removing sequences -/

/-- What freeing caches leaves of the cache. -/
structure Freed (handles : List CacheHandle) (c c' : PagedKvCacheManager R) : Prop where
  accounted : c.Accounted → c'.Accounted
  others : ∀ {g}, g ∉ handles → c'.sequences.lookup g = c.sequences.lookup g
  gone : ∀ g ∈ handles, c'.lenOf g = none
  freeList : c.pool.freeList ⊆ c'.pool.freeList
  returned : ∀ g ∈ handles, ∀ {seq}, c.sequences.lookup g = some seq →
    seq.blockTable ⊆ c'.pool.freeList

theorem release_freed (c : PagedKvCacheManager R) (handle : CacheHandle) :
    Freed [handle] c (release c handle) := by
  cases hseq : c.sequences.lookup handle with
  | none =>
    have heq : release c handle = c := by
      rw [release, free_of_notLive hseq]
      rfl
    rw [heq]
    refine ⟨id, fun _ => rfl, fun g hg => ?_, List.Subset.refl _, fun g hg seq hold => ?_⟩
    · rw [List.mem_singleton.1 hg, lenOf, hseq]
      rfl
    · rw [List.mem_singleton.1 hg, hseq] at hold
      cases hold
  | some seq =>
    refine ⟨fun hc => hc.free handle, ?_, ?_, ?_, ?_⟩ <;>
      rw [release, free_of_lookup hseq, state_ok]
    · exact fun hg => AList.lookup_erase_ne (by simpa using hg)
    · intro g hg
      rw [List.mem_singleton.1 hg, lenOf, AList.lookup_erase]
      rfl
    · exact List.subset_append_right _ _
    · intro g hg seq' hseq' b hb
      rw [List.mem_singleton.1 hg, hseq] at hseq'
      cases hseq'
      exact List.mem_append_left _ (List.mem_reverse.2 hb)

variable {c' : PagedKvCacheManager R}

theorem Freed.trans {hs hs' : List CacheHandle} {c'' : PagedKvCacheManager R} (h : Freed hs c c')
    (h' : Freed hs' c' c'') : Freed (hs ++ hs') c c'' := by
  refine ⟨fun hc => h'.accounted (h.accounted hc), fun hg => ?_, fun g hg => ?_,
    List.Subset.trans h.freeList h'.freeList, fun g hg seq hseq => ?_⟩
  · rw [List.mem_append, not_or] at hg
    exact (h'.others hg.2).trans (h.others hg.1)
  · by_cases hmem : g ∈ hs'
    · exact h'.gone g hmem
    · have hgone := h.gone g ((List.mem_append.1 hg).resolve_right hmem)
      rwa [lenOf, h'.others hmem]
  · by_cases hmem : g ∈ hs
    · exact List.Subset.trans (h.returned g hmem hseq) h'.freeList
    · refine h'.returned g ((List.mem_append.1 hg).resolve_left hmem) ?_
      rwa [h.others hmem]

theorem Freed.lenOf_eq {hs : List CacheHandle} (h : Freed hs c c') {g : CacheHandle} (hg : g ∉ hs) :
    c'.lenOf g = c.lenOf g := by
  rw [lenOf, lenOf, h.others hg]

/-- Running sequences leave, and their caches are freed. -/
theorem Housed.evictAll {active : AList fun _ : ℕ => ActiveSequence} (h : Housed active c)
    {α : Type} (rs : List α) (id : α → ℕ) (handle : α → CacheHandle) (hnodup : (rs.map id).Nodup)
    (hrs : ∀ r ∈ rs, ∃ seq, active.lookup (id r) = some seq ∧ seq.handle = handle r) :
    Housed (rs.foldl (fun active r => active.erase (id r)) active)
      (rs.foldl (fun c r => release c (handle r)) c) ∧
    Freed (rs.map handle) c (rs.foldl (fun c r => release c (handle r)) c) := by
  induction rs generalizing active c with
  | nil =>
    exact ⟨h, ⟨fun h => h, fun _ => rfl, by simp, List.Subset.refl _, by simp⟩⟩
  | cons r rs ih =>
    obtain ⟨hnotMem, hnodup'⟩ := List.nodup_cons.1 hnodup
    obtain ⟨seq, hseq, hhandle⟩ := hrs r (.head _)
    have hfreed := release_freed c (handle r)
    have hfree : FreeOk c seq.handle (release c (handle r)) := by
      obtain ⟨c', hok⟩ := free_eq_ok (lenOf_eq_cachedLen (h.live hseq))
      rw [hhandle] at hok ⊢
      rw [release, hok, state_ok]
      exact freeOk hok
    have hne : ∀ q ∈ rs, id q ≠ id r := fun q hq heq => hnotMem (List.mem_map.2 ⟨q, hq, heq⟩)
    obtain ⟨hhoused, hrest⟩ := ih (h.evict hseq hfree) hnodup' fun q hq => by
      obtain ⟨seq', hseq', heq⟩ := hrs q (.tail _ hq)
      exact ⟨seq', lookup_erase_eq_some.2 ⟨hne q hq, hseq'⟩, heq⟩
    exact ⟨hhoused, hfreed.trans hrest⟩

/-- What is no longer running has been freed. -/
theorem Freed.mem_of_removed {handles : List CacheHandle} (h : Freed handles c c')
    {active active' : AList fun _ : ℕ => ActiveSequence} (hhoused : Housed active c)
    (hhoused' : Housed active' c')
    (hold : ∀ {id seq'}, active'.lookup id = some seq' → ∃ seq, active.lookup id = some seq ∧
      seq'.handle = seq.handle) {id : ℕ} {seq : ActiveSequence} (hseq : active.lookup id = some seq)
    (hgone : active'.lookup id = none) : seq.handle ∈ handles := by
  by_contra hmem
  have hlive : (c'.lenOf seq.handle).isSome := by
    rw [h.lenOf_eq hmem]
    exact hhoused.live hseq
  obtain ⟨id', seq', hseq', hhandle⟩ := hhoused'.only hlive
  obtain ⟨old, hold', heq⟩ := hold hseq'
  obtain rfl := hhoused.apart hold' hseq (heq.symm.trans hhandle)
  cases hgone.symm.trans hseq'

theorem lookup_foldl_erase {α : Type} (rs : List α) (key : α → ℕ)
    (active : AList fun _ : ℕ => ActiveSequence) (id : ℕ) :
    (rs.foldl (fun active r => active.erase (key r)) active).lookup id =
      if id ∈ rs.map key then none else active.lookup id := by
  induction rs generalizing active with
  | nil => simp
  | cons r rs ih =>
    rw [List.foldl_cons, ih]
    by_cases hid : id = key r
    · subst hid
      simp [AList.lookup_erase]
    · simp [AList.lookup_erase_ne hid, hid]

/-! ## Cleanup -/

/-- What the cleanup does with one sequence. -/
inductive Cleaned (closed : ℕ → Bool) (id : ℕ) :
    Option ActiveSequence → List GenerationEvent → Option ActiveSequence → Prop
  | absent : Cleaned closed id none [] none
  | keep {seq} (hgoing : finished seq = none) (hopen : closed id = false) :
    Cleaned closed id (some seq) [] (some seq)
  | finish {seq reason} (hfinished : finished seq = some reason) :
    Cleaned closed id (some seq) [.finished reason seq.generatedTokens.length] none
  | drop {seq} (hgoing : finished seq = none) (hclosed : closed id = true) :
    Cleaned closed id (some seq) [] none

section Cleanup

variable {s : BatchScheduler} {order : IterOrder} {closed : ℕ → Bool}

/-- Why a sequence is on the list of those to remove. -/
theorem mem_completed {r : ℕ × CacheHandle × Option GenerationEvent} :
    r ∈ s.completed order closed ↔ ∃ seq, s.active.lookup r.1 = some seq ∧ seq.handle = r.2.1 ∧
      ((∃ reason, finished seq = some reason ∧
          r.2.2 = some (.finished reason seq.generatedTokens.length)) ∨
        finished seq = none ∧ closed r.1 = true ∧ r.2.2 = none) := by
  obtain ⟨id, handle, event⟩ := r
  simp only [completed, List.mem_filterMap, Option.bind_eq_some_iff]
  constructor
  · rintro ⟨key, -, seq, hseq, hremove⟩
    cases hfinished : finished seq with
    | some reason =>
      rw [hfinished] at hremove
      cases hremove
      exact ⟨seq, hseq, rfl, .inl ⟨reason, hfinished, rfl⟩⟩
    | none =>
      rw [hfinished] at hremove
      dsimp only at hremove
      split at hremove
      · next hclosed =>
        cases hremove
        exact ⟨seq, hseq, rfl, .inr ⟨hfinished, hclosed, rfl⟩⟩
      · cases hremove
  · rintro ⟨seq, hseq, rfl, hwhy⟩
    have hkey : id ∈ order.arrange s.active.keys :=
      (order.perm _).mem_iff.2 (AList.mem_keys.2 (AList.lookup_isSome.1 (by rw [hseq]; rfl)))
    refine ⟨id, hkey, seq, hseq, ?_⟩
    rcases hwhy with ⟨reason, hfinished, rfl⟩ | ⟨hgoing, hclosed, rfl⟩
    · rw [hfinished]
    · rw [hgoing]
      exact if_pos hclosed

section

variable (s) (order : IterOrder) (closed : ℕ → Bool)

theorem nodup_completed : ((s.completed order closed).map (·.1)).Nodup := by
  refine (sublist_map_filterMap id (fun {key r} hr => ?_) _).nodup ?_
  · obtain ⟨seq, -, hr⟩ := Option.bind_eq_some_iff.1 hr
    split at hr
    · cases hr
      rfl
    · split at hr <;> cases hr
      rfl
  · rw [List.map_id]
    exact (order.perm _).nodup_iff.2 s.active.nodupKeys

/-- **The cleanup, seen from one sequence.** -/
theorem cleanup_each (id : ℕ) :
    Cleaned closed id (s.active.lookup id) (eventsOf id (s.cleanupCompleted order closed).2.2)
      ((s.cleanupCompleted order closed).2.1.active.lookup id) := by
  have hnodup := nodup_completed s order closed
  have hlook : (s.cleanupCompleted order closed).2.1.active.lookup id =
      if id ∈ (s.completed order closed).map (·.1) then none else s.active.lookup id :=
    lookup_foldl_erase (s.completed order closed) (·.1) s.active id
  have hsent : ∀ {g event}, (g, event) ∈ (s.cleanupCompleted order closed).2.2 ↔
      ∃ r ∈ s.completed order closed, r.1 = g ∧ r.2.2 = some event := by
    intro g event
    simp only [cleanupCompleted, List.mem_filterMap, Option.map_eq_some_iff, Prod.mk.injEq]
    constructor
    · rintro ⟨r, hr, _, hevent, rfl, rfl⟩
      exact ⟨r, hr, rfl, hevent⟩
    · rintro ⟨r, hr, rfl, hevent⟩
      exact ⟨r, hr, event, hevent, rfl, rfl⟩
  have hnodup' : ((s.cleanupCompleted order closed).2.2.map (·.1)).Nodup := by
    refine (sublist_map_filterMap _ (fun {r p} hp => ?_) _).nodup hnodup
    obtain ⟨event, -, rfl⟩ := Option.map_eq_some_iff.1 hp
    rfl
  rw [hlook]
  by_cases hmem : id ∈ (s.completed order closed).map (·.1)
  · obtain ⟨r, hr, rfl⟩ := List.mem_map.1 hmem
    obtain ⟨seq, hseq, -, hwhy⟩ := mem_completed.1 hr
    rw [if_pos hmem, hseq]
    rcases hwhy with ⟨reason, hfinished, hevent⟩ | ⟨hgoing, hclosed, hevent⟩
    · rw [eventsOf_of_mem hnodup' (hsent.2 ⟨r, hr, rfl, hevent⟩)]
      exact .finish hfinished
    · rw [eventsOf_eq_nil]
      · exact .drop hgoing hclosed
      · intro hid
        obtain ⟨p, hp, heq⟩ := List.mem_map.1 hid
        obtain ⟨r', hr', hrid, hevent'⟩ := hsent.1 hp
        cases List.inj_on_of_nodup_map hnodup hr hr' (heq.symm.trans hrid.symm)
        rw [hevent] at hevent'
        cases hevent'
  · rw [if_neg hmem, eventsOf_eq_nil]
    · cases hseq : s.active.lookup id with
      | none => exact .absent
      | some seq =>
        have hnot : ∀ event, (id, seq.handle, event) ∉ s.completed order closed := fun event hr =>
          hmem (List.mem_map.2 ⟨_, hr, rfl⟩)
        have hgoing : finished seq = none := by
          cases hfinished : finished seq with
          | none => rfl
          | some reason =>
            exact absurd (mem_completed.2 ⟨seq, hseq, rfl, .inl ⟨reason, hfinished, rfl⟩⟩)
              (hnot (some _))
        refine .keep hgoing ?_
        cases hclosed : closed id with
        | false => rfl
        | true =>
          exact absurd (mem_completed.2 ⟨seq, hseq, rfl, .inr ⟨hgoing, hclosed, rfl⟩⟩) (hnot none)
    · intro hid
      obtain ⟨p, hp, heq⟩ := List.mem_map.1 hid
      obtain ⟨r, hr, hrid, -⟩ := hsent.1 hp
      exact hmem (List.mem_map.2 ⟨r, hr, hrid.trans heq⟩)

end

/-- The cleanup keeps the other sequences in their caches and frees the rest. -/
theorem cleanup_housed {c : PagedKvCacheManager R} (h : Housed s.active c) (order : IterOrder)
    (closed : ℕ → Bool) :
    Housed (s.cleanupCompleted order closed).2.1.active
      ((s.cleanupCompleted order closed).1.foldl (fun c r => release c r.2) c) ∧
    Freed ((s.cleanupCompleted order closed).1.map (·.2)) c
      ((s.cleanupCompleted order closed).1.foldl (fun c r => release c r.2) c) := by
  have hevict := h.evictAll (s.cleanupCompleted order closed).1 (·.1) (·.2)
    (by
      change (((s.completed order closed).map fun r => (r.1, r.2.1)).map (·.1)).Nodup
      rw [List.map_map]
      exact nodup_completed s order closed)
    (fun r hr => by
      obtain ⟨q, hq, rfl⟩ := List.mem_map.1 hr
      obtain ⟨seq, hseq, hhandle, -⟩ := mem_completed.1 hq
      exact ⟨seq, hseq, hhandle⟩)
  have hactive : (s.cleanupCompleted order closed).2.1.active =
      (s.cleanupCompleted order closed).1.foldl (fun active r => active.erase r.1) s.active := by
    simp only [cleanupCompleted, List.foldl_map]
  rwa [← hactive] at hevict

end Cleanup

/-! ## A failed forward pass -/

/-- The event a failed batch ends its sequences with. -/
def abortEvent (e : FractureError) : GenerationEvent :=
  let text := e.display
  .error s!"forward pass failed: {text}"

variable {entries : List BatchEntry} (hnodup : (entries.map (·.seqId)).Nodup)
include hnodup

/-- The clients of a failed batch, one event each. -/
theorem eventsOf_abort (event : GenerationEvent) (id : ℕ) :
    eventsOf id (entries.map fun entry => (entry.seqId, event)) =
      if id ∈ entries.map (·.seqId) then [event] else [] := by
  have hids : (entries.map fun entry => (entry.seqId, event)).map (·.1) =
      entries.map (·.seqId) := by
    rw [List.map_map]
    rfl
  split
  · next hmem =>
    obtain ⟨entry, hentry, rfl⟩ := List.mem_map.1 hmem
    exact eventsOf_of_mem (by rwa [hids]) (List.mem_map.2 ⟨entry, hentry, rfl⟩)
  · next hmem => exact eventsOf_eq_nil (by rwa [hids])

/-- A failed batch removes its sequences, frees their caches and tells
their clients. -/
theorem foldl_abortEntry (e : FractureError) (st : LoopState R)
    (hentries : ∀ entry ∈ entries, ∃ seq, st.scheduler.active.lookup entry.seqId = some seq ∧
      seq.handle = entry.slice.handle) :
    entries.foldl (abortEntry e) st = { st with
      scheduler := { st.scheduler with
        active := entries.foldl (fun active entry => active.erase entry.seqId) st.scheduler.active }
      cache := entries.foldl (fun c entry => release c entry.slice.handle) st.cache
      events := st.events ++ entries.map fun entry => (entry.seqId, abortEvent e) } := by
  induction entries generalizing st with
  | nil => simp
  | cons entry entries ih =>
    obtain ⟨hnotMem, hnodup'⟩ := List.nodup_cons.1 hnodup
    obtain ⟨seq, hseq, hhandle⟩ := hentries entry (.head _)
    have hfirst : abortEntry e st entry = { st with
        scheduler := { st.scheduler with active := st.scheduler.active.erase entry.seqId }
        cache := release st.cache entry.slice.handle
        events := st.events ++ [(entry.seqId, abortEvent e)] } := by
      rw [abortEntry, hseq, ← hhandle]
      rfl
    rw [List.foldl_cons, hfirst, ih hnodup' _ fun other hother => ?_]
    · simp
    · obtain ⟨seq', hseq', heq⟩ := hentries other (.tail _ hother)
      refine ⟨seq', lookup_erase_eq_some.2 ⟨fun hid => hnotMem ?_, hseq'⟩, heq⟩
      exact List.mem_map.2 ⟨other, hother, hid⟩

end Fracture
