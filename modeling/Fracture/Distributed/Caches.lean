import Fracture.Distributed.Answers
import Fracture.Distributed.Turn

/-!
# What the workers have cached

A worker has a cache for each sequence it was told to allocate one for.
Allocating and freeing touch one sequence only, and a batch that came
through lengthens each of its sequences by its positions.
-/

namespace Fracture

open Effect PagedKvCacheManager

variable {R W F : Type} {b : Backend R W F}

namespace HostedCache

/-- The rows a host has for a sequence, if it has a cache for it. -/
def lenFor (host : HostedCache R) (id : ℕ) : Option ℕ :=
  (host.handles.lookup id).bind host.cache.lenOf

/-- Every sequence has a live handle of its own. -/
structure Tidy (host : HostedCache R) : Prop where
  accounted : host.cache.Accounted
  live : ∀ {id h}, host.handles.lookup id = some h → ∃ n, host.cache.lenOf h = some n
  distinct : ∀ {id id' h}, host.handles.lookup id = some h → host.handles.lookup id' = some h →
    id = id'

/-- Only the sequences `ids` were touched, and a cache that is there now was
there before or is empty. -/
structure Aside (ids : List ℕ) (host host' : HostedCache R) : Prop where
  tidy : host'.Tidy
  known : ∀ {id}, id ∈ host'.handles → id ∈ host.handles ∨ id ∈ ids
  others : ∀ {id}, id ∉ ids → host'.lenFor id = host.lenFor id
  same : ∀ {id n}, host'.lenFor id = some n → n = 0 ∨ host.lenFor id = some n

variable {host host' host'' : HostedCache R} {id : ℕ}

theorem Aside.refl (h : host.Tidy) (ids : List ℕ) : Aside ids host host :=
  ⟨h, .inl, fun _ => rfl, .inr⟩

theorem Aside.trans {ids ids' : List ℕ} (h : Aside ids host host') (h' : Aside ids' host' host'') :
    Aside (ids ++ ids') host host'' where
  tidy := h'.tidy
  known hid := by
    rcases h'.known hid with hid | hid
    · exact (h.known hid).imp_right (List.mem_append_left _)
    · exact .inr (List.mem_append_right _ hid)
  others hout := by
    rw [List.mem_append, not_or] at hout
    exact (h'.others hout.2).trans (h.others hout.1)
  same hlen := (h'.same hlen).elim .inl h.same

theorem Aside.mono {ids ids' : List ℕ} (h : Aside ids host host') (hsub : ids ⊆ ids') :
    Aside ids' host host' :=
  ⟨h.tidy, fun hid => (h.known hid).imp_right (hsub ·), fun hout => h.others fun hid => hout (hsub hid),
    h.same⟩

theorem lenFor_of_lookup {h : CacheHandle} (hlook : host.handles.lookup id = some h) :
    host.lenFor id = host.cache.lenOf h := by
  rw [lenFor, hlook, Option.bind_some]

theorem mem_of_lenFor {n : ℕ} (hlen : host.lenFor id = some n) : id ∈ host.handles := by
  obtain ⟨h, hlook, -⟩ := Option.bind_eq_some_iff.1 hlen
  exact AList.lookup_isSome.1 (by rw [hlook, Option.isSome_some])

/-- A sequence with the same handle, and a handle with the same length. -/
theorem lenFor_congr (hlook : host'.handles.lookup id = host.handles.lookup id)
    (hlen : ∀ {g}, host.handles.lookup id = some g → host'.cache.lenOf g = host.cache.lenOf g) :
    host'.lenFor id = host.lenFor id := by
  rw [lenFor, lenFor, hlook]
  exact Option.bind_congr fun g hg => hlen hg

theorem lenFor_of_notMem (hnone : id ∉ host.handles) : host.lenFor id = none := by
  rw [lenFor, AList.lookup_eq_none.2 hnone, Option.bind_none]

namespace Tidy

variable {cache : PagedKvCacheManager R} {handle : CacheHandle}

/-- A handle in use is not the next one to be handed out. -/
theorem ne_nextId (h : host.Tidy) {g : CacheHandle} (hlook : host.handles.lookup id = some g) :
    g ≠ host.cache.nextId := by
  obtain ⟨n, hlen⟩ := h.live hlook
  obtain ⟨seq, hseq, -⟩ := lenOf_eq_some.1 hlen
  have hlive : (host.cache.sequences.lookup g).isSome := by rw [hseq, Option.isSome_some]
  exact Nat.ne_of_lt (h.accounted.fresh g (AList.lookup_isSome.1 hlive))

variable (h : host.Tidy) (hacc : cache.Accounted)
include h hacc

/-- The same sequences on a cache with the same lengths. -/
theorem of_lenOf (hlens : ∀ g, cache.lenOf g = host.cache.lenOf g) (ids : List ℕ) :
    Aside ids host { host with cache } := by
  have hsame : ∀ id, ({ host with cache } : HostedCache R).lenFor id = host.lenFor id :=
    fun id => lenFor_congr rfl fun _ => hlens _
  refine ⟨⟨hacc, fun hg => ?_, h.distinct⟩, .inl, fun _ => hsame _, fun hlen => .inr ?_⟩
  · rw [hlens]
    exact h.live hg
  · rw [← hsame]
    exact hlen

/-- A new sequence gets a handle of its own. -/
theorem insert (hok : AllocOk host.cache handle cache) (id : ℕ) :
    Aside [id] host { cache, handles := host.handles.insert id handle } := by
  have hold : ∀ {id' g}, host.handles.lookup id' = some g → g ≠ handle := fun hg => by
    rw [hok.handle]
    exact h.ne_nextId hg
  have hnew : (host.handles.insert id handle).lookup id = some handle := AList.lookup_insert _
  have hothers : ∀ {id'}, id' ≠ id →
      HostedCache.lenFor { cache, handles := host.handles.insert id handle } id' = host.lenFor id' :=
    fun hne => lenFor_congr (AList.lookup_insert_ne hne) fun hg => hok.others (hold hg)
  refine ⟨⟨hacc, fun {id' g} hg => ?_, fun {id₁ id₂ g} hg hg' => ?_⟩, fun hid' => ?_,
    fun {id'} hout => ?_, fun {id' n} hlen => ?_⟩
  · rcases Assoc.lookup_insert_eq_some.1 hg with ⟨-, rfl⟩ | ⟨-, hg⟩
    · exact ⟨0, hok.live⟩
    · obtain ⟨n, hn⟩ := h.live hg
      exact ⟨n, (hok.others (hold hg)).trans hn⟩
  · rcases Assoc.lookup_insert_eq_some.1 hg with ⟨rfl, rfl⟩ | ⟨-, hg₁⟩
    · rcases Assoc.lookup_insert_eq_some.1 hg' with ⟨rfl, -⟩ | ⟨-, hg₂⟩
      · rfl
      · exact absurd rfl (hold hg₂)
    · rcases Assoc.lookup_insert_eq_some.1 hg' with ⟨-, rfl⟩ | ⟨-, hg₂⟩
      · exact absurd rfl (hold hg₁)
      · exact h.distinct hg₁ hg₂
  · rw [List.mem_singleton]
    exact ((AList.mem_insert _).1 hid').symm
  · exact hothers (mt List.mem_singleton.2 hout)
  · by_cases hid : id' = id
    · subst hid
      rw [lenFor_of_lookup hnew] at hlen
      exact .inl (Option.some.inj (hlen.symm.trans hok.live))
    · rw [hothers hid] at hlen
      exact .inr hlen

/-- A sequence that is freed takes no other with it. -/
theorem erase (hlook : host.handles.lookup id = some handle) (hok : FreeOk host.cache handle cache) :
    Aside [id] host { cache, handles := host.handles.erase id } := by
  have hother : ∀ {id' g}, id' ≠ id → host.handles.lookup id' = some g → g ≠ handle := by
    rintro id' g hne hg rfl
    exact hne (h.distinct hg hlook)
  have hothers : ∀ {id'}, id' ≠ id →
      HostedCache.lenFor { cache, handles := host.handles.erase id } id' = host.lenFor id' :=
    fun hne => lenFor_congr (AList.lookup_erase_ne hne) fun hg => hok.others (hother hne hg)
  refine ⟨⟨hacc, fun {id' g} hg => ?_, fun {id₁ id₂ g} hg hg' => ?_⟩, fun hid' => .inl ?_,
    fun {id'} hout => hothers (mt List.mem_singleton.2 hout), fun {id' n} hlen => .inr ?_⟩
  · obtain ⟨hne, hg⟩ := Assoc.lookup_erase_eq_some.1 hg
    obtain ⟨n, hn⟩ := h.live hg
    exact ⟨n, (hok.others (hother hne hg)).trans hn⟩
  · exact h.distinct (Assoc.lookup_erase_eq_some.1 hg).2 (Assoc.lookup_erase_eq_some.1 hg').2
  · exact ((AList.mem_erase).1 hid').2
  · by_cases hid : id' = id
    · subst hid
      rw [lenFor_of_notMem fun hin => ((AList.mem_erase).1 hin).1 rfl] at hlen
      cases hlen
    · rw [← hothers hid]
      exact hlen

end Tidy

end HostedCache

namespace Stage

open HostedCache

variable {s s' : Stage R W}

/-- **A new cache** is empty, and nothing to the other sequences. -/
theorem handleCacheAlloc_aside (h : s.host.Tidy) (noMemory : String → Option FractureError)
    (id : ℕ) : Aside [id] s.host (s.handleCacheAlloc noMemory id).2.host := by
  unfold handleCacheAlloc
  split
  · exact .refl h [id]
  · exact .refl h [id]
  · have hacc := h.accounted.alloc
    split
    · next handle cache hok =>
      rw [hok, state_ok] at hacc
      exact h.insert hacc (allocOk hok) id
    · next e cache herr =>
      rw [herr, state_error] at hacc
      refine h.of_lenOf hacc (fun g => ?_) [id]
      rw [lenOf, (of_alloc_error herr).2.1, lenOf]

theorem handleCacheFree_aside (h : s.host.Tidy) (id : ℕ) :
    Aside [id] s.host (s.handleCacheFree id).host := by
  unfold handleCacheFree
  split
  · exact .refl h [id]
  · next handle hlook =>
    obtain ⟨n, hlen⟩ := h.live hlook
    obtain ⟨cache, hok⟩ := free_eq_ok hlen
    have hacc := h.accounted.free handle
    rw [hok, state_ok] at hacc ⊢
    exact h.erase hacc hlook (freeOk hok)

/-- **A batch that came through a worker** lengthened each of its sequences
by the job's positions, and no other. -/
structure Lengthens (jobs : List DistributedJob) (s s' : Stage R W) : Prop where
  tidy : s'.host.Tidy
  handles : s'.host.handles = s.host.handles
  each : ∀ job ∈ jobs, ∃ n, s.host.lenFor job.seqId = some n ∧
    s'.host.lenFor job.seqId = some (n + job.positions.length)
  others : ∀ {id}, id ∉ jobs.map (·.seqId) → s'.host.lenFor id = s.host.lenFor id

theorem Ran.lengthens (hb : b.Sound) (h : s.host.Tidy) {jobs : List DistributedJob}
    (hids : (jobs.map (·.seqId)).Nodup) (hran : Ran b jobs s s') : Lengthens jobs s s' := by
  obtain ⟨withTokens, sent, x, placed, hknown, hnode, hsame⟩ := hran
  have hhandles : s'.host.handles = s.host.handles := by rw [hsame]
  have hlens := hnode.lens hb h.accounted
  -- the batch by handle, and the handles of its sequences
  have hparts : (jobs.map fun job => s.host.slice withTokens job.request).map
      (fun s => (s.handle, s.positions.length)) =
      jobs.map fun job => (s.host.handleOf job.seqId, job.positions.length) := by
    rw [List.map_map]
    rfl
  rw [hparts] at hlens
  have hlook : ∀ job ∈ jobs, s.host.handles.lookup job.seqId = some (s.host.handleOf job.seqId) :=
    fun job hjob => lookup_eq_handleOf (hknown job hjob)
  have hnodup : ((jobs.map fun job => (s.host.handleOf job.seqId, job.positions.length)).map
      (·.1)).Nodup := by
    have hmap : (jobs.map fun job => (s.host.handleOf job.seqId, job.positions.length)).map (·.1) =
        (jobs.map (·.seqId)).map s.host.handleOf := by
      rw [List.map_map, List.map_map]
      rfl
    rw [hmap]
    refine hids.map_on fun id hid id' hid' heq => ?_
    obtain ⟨job, hjob, rfl⟩ := List.mem_map.1 hid
    obtain ⟨job', hjob', rfl⟩ := List.mem_map.1 hid'
    exact h.distinct (hlook job hjob) (heq ▸ hlook job' hjob')
  refine ⟨⟨hnode.accounted hb h.accounted, fun hg => ?_, fun hg hg' => ?_⟩, hhandles,
    fun job hjob => ?_, fun {id} hout => ?_⟩
  · rw [hhandles] at hg
    obtain ⟨n, hn⟩ := h.live hg
    exact ⟨_, by rw [hlens, hn, Option.map_some]⟩
  · rw [hhandles] at hg hg'
    exact h.distinct hg hg'
  · obtain ⟨n, hn⟩ := h.live (hlook job hjob)
    refine ⟨n, (lenFor_of_lookup (hlook job hjob)).trans hn, ?_⟩
    rw [lenFor_of_lookup (hhandles ▸ hlook job hjob), hlens, hn,
      sum_parts_of_mem hnodup (List.mem_map.2 ⟨job, hjob, rfl⟩), Option.map_some]
  · refine lenFor_congr (by rw [hhandles]) fun {g} hg => ?_
    have hnot : g ∉ (jobs.map fun job => (s.host.handleOf job.seqId, job.positions.length)).map
        (·.1) := by
      intro hin
      rw [List.map_map] at hin
      obtain ⟨job, hjob, heq⟩ := List.mem_map.1 hin
      have hsame : id = job.seqId := h.distinct hg (heq ▸ hlook job hjob)
      exact hout (hsame ▸ List.mem_map_of_mem hjob)
    rw [hlens, sum_parts_of_notMem hnot]
    exact Option.map_id' ..

end Stage

/-! ## The pipeline's operations -/

namespace Cluster

variable {cl cl' cl'' : Cluster R W} {net : Network} {ids : List ℕ} {id : ℕ}

/-- Every worker keeps its caches in order. -/
def Tidy (cl : Cluster R W) : Prop := ∀ s ∈ cl.stages, s.host.Tidy

/-- Only the sequences `ids` were touched, on any of the workers. -/
def StagesAside (ids : List ℕ) (stages stages' : List (Stage R W)) : Prop :=
  ∀ s' ∈ stages', ∃ s ∈ stages, HostedCache.Aside ids s.host s'.host

namespace StagesAside

variable {stages stages' stages'' : List (Stage R W)} {s s' : Stage R W}

theorem refl (h : ∀ s ∈ stages, s.host.Tidy) (ids : List ℕ) : StagesAside ids stages stages :=
  fun s hs => ⟨s, hs, .refl (h s hs) ids⟩

variable (h : StagesAside ids stages stages')
include h

theorem tidy : ∀ s ∈ stages', s.host.Tidy := by
  intro s' hs'
  obtain ⟨s, -, haside⟩ := h s' hs'
  exact haside.tidy

theorem mono {ids' : List ℕ} (hsub : ids ⊆ ids') : StagesAside ids' stages stages' := by
  intro s' hs'
  obtain ⟨s, hs, haside⟩ := h s' hs'
  exact ⟨s, hs, haside.mono hsub⟩

theorem trans {ids' : List ℕ} (h' : StagesAside ids' stages' stages'') :
    StagesAside (ids ++ ids') stages stages'' := by
  intro s'' hs''
  obtain ⟨s', hs', hlast⟩ := h' s'' hs''
  obtain ⟨s, hs, hfirst⟩ := h s' hs'
  exact ⟨s, hs, hfirst.trans hlast⟩

theorem cons (hfirst : HostedCache.Aside ids s.host s'.host) :
    StagesAside ids (s :: stages) (s' :: stages') := by
  intro s'' hs''
  rcases List.mem_cons.1 hs'' with rfl | hs''
  · exact ⟨s, .head _, hfirst⟩
  · obtain ⟨s₀, hs₀, haside⟩ := h s'' hs''
    exact ⟨s₀, .tail _ hs₀, haside⟩

end StagesAside

/-- Only the sequences `ids` were touched. -/
structure Aside (ids : List ℕ) (cl cl' : Cluster R W) : Prop where
  stages : StagesAside ids cl.stages cl'.stages
  allocated : cl'.allocatedSeqs ⊆ cl.allocatedSeqs ++ ids

namespace Aside

theorem tidy (h : Aside ids cl cl') : cl'.Tidy := h.stages.tidy

theorem refl (h : cl.Tidy) (ids : List ℕ) : Aside ids cl cl :=
  ⟨.refl h ids, List.subset_append_left ..⟩

theorem mono {ids' : List ℕ} (h : Aside ids cl cl') (hsub : ids ⊆ ids') : Aside ids' cl cl' :=
  ⟨h.stages.mono hsub, fun _ hid => (List.mem_append.1 (h.allocated hid)).elim
    (List.mem_append_left _) fun hid => List.mem_append_right _ (hsub hid)⟩

theorem trans {ids' : List ℕ} (h : Aside ids cl cl') (h' : Aside ids' cl' cl'') :
    Aside (ids ++ ids') cl cl'' := by
  refine ⟨h.stages.trans h'.stages, fun id hid => ?_⟩
  rw [← List.append_assoc]
  rcases List.mem_append.1 (h'.allocated hid) with hid | hid
  · exact List.mem_append_left _ (h.allocated hid)
  · exact List.mem_append_right _ hid

end Aside

section Stages

variable (net) {stages : List (Stage R W)} (h : ∀ s ∈ stages, s.host.Tidy) (id : ℕ)
include h

theorem sendAllocs_aside : StagesAside [id] stages (sendAllocs net id stages).2.2 := by
  induction stages with
  | nil => exact .refl h [id]
  | cons s rest ih =>
    unfold sendAllocs
    split
    · exact .refl h [id]
    · exact .cons (ih fun s hs => h s (.tail _ hs)) (s.handleCacheAlloc_aside (h s (.head _)) _ id)

theorem sendFrees_aside : StagesAside [id] stages (sendFrees net id stages).2 := by
  induction stages with
  | nil => exact .refl h [id]
  | cons s rest ih =>
    unfold sendFrees
    split
    · exact .refl h [id]
    · exact .cons (ih fun s hs => h s (.tail _ hs)) (s.handleCacheFree_aside (h s (.head _)) id)

omit net in
theorem freeOn_aside (sent : String → Bool) : StagesAside [id] stages (freeOn sent id stages) := by
  refine List.forall_mem_map.2 fun s hs => ⟨s, hs, ?_⟩
  split
  · exact s.handleCacheFree_aside (h s hs) id
  · exact .refl (h s hs) [id]

end Stages

variable (net)

theorem allocCache_aside (h : cl.Tidy) (id : ℕ) :
    Aside [id] cl (state (allocCache net id cl)) := by
  have hsent := sendAllocs_aside net h id
  have hsub : cl.allocatedSeqs ⊆ cl.allocatedSeqs ++ [id] := List.subset_append_left ..
  unfold allocCache
  split
  · exact .refl h [id]
  · dsimp only
    split
    · exact ⟨hsent, List.Subset.refl _⟩
    · refine ⟨?_, hsub⟩
      dsimp only [state_error]
      exact (hsent.trans (freeOn_aside hsent.tidy id _)).mono (by simp)
    · exact ⟨hsent, hsub⟩

theorem freeCache_aside (h : cl.Tidy) (id : ℕ) :
    Aside [id] cl (state (freeCache net id cl)) := by
  have hsub : cl.allocatedSeqs.filter (· ≠ id) ⊆ cl.allocatedSeqs ++ [id] := fun id' hid' =>
    List.mem_append_left _ (List.mem_of_mem_filter hid')
  unfold freeCache
  split
  · dsimp only
    split <;> exact ⟨sendFrees_aside net h id, hsub⟩
  · exact .refl h [id]

theorem abortAllSequences_aside (h : cl.Tidy) :
    Aside cl.allocatedSeqs cl (cl.abortAllSequences net).2 := by
  have hfold : ∀ (ids : List ℕ) (stages : List (Stage R W)), (∀ s ∈ stages, s.host.Tidy) →
      StagesAside ids stages (ids.foldl (fun stages seqId =>
        freeOn (fun nodeId => net.ready nodeId && net.reaches nodeId) seqId stages) stages) := by
    intro ids
    induction ids with
    | nil => exact fun stages h => .refl h []
    | cons id ids ih =>
      intro stages h
      have hfree := freeOn_aside h id fun nodeId => net.ready nodeId && net.reaches nodeId
      exact hfree.trans (ih _ hfree.tidy)
  exact ⟨(hfold _ _ h).mono (net.order.perm _).subset, List.nil_subset _⟩

variable {net}

/-- **A batch that came through the pipeline** lengthened each of its
sequences on every worker. -/
theorem batchedForward_lengthens (hb : b.Sound) (h : cl.Tidy) {jobs : List DistributedJob}
    (hids : (jobs.map (·.seqId)).Nodup) {flat : List F}
    (hok : batchedForward b net (fun _ => none) (jobs.map (·.wire)) (jobs.flatMap (·.tokens)) cl =
      .ok flat cl') :
    (∀ job ∈ jobs, job.seqId ∈ cl.allocatedSeqs) ∧ cl'.allocatedSeqs = cl.allocatedSeqs ∧
      List.Forall₂ (Stage.Lengthens jobs) cl.stages cl'.stages := by
  obtain ⟨hallocated, hforward, rfl⟩ := batchedForward_eq_ok hok
  refine ⟨fun job hjob => ?_, rfl, ?_⟩
  · exact hallocated job.wire (List.mem_map_of_mem hjob)
  · obtain ⟨_, _, _, _, _, hran, -⟩ := forwardStages_of_ok (fun _ _ => rfl) .tokens hforward
    refine ((List.forall₂_and_left _ _).2 ⟨h, hran.each⟩).imp ?_
    rintro s s' ⟨htidy, hran⟩
    exact hran.lengthens hb htidy hids

end Cluster

end Fracture
