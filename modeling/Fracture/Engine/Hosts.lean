import Fracture.Engine.Alone
import Fracture.Engine.Partition

/-!
# What a host keeps

A host shows a logical cache under the ids of its sequences: each of
them is live under a handle of its own, and has there the rows the
logical cache has under its id. Allocating, freeing and running a batch
on the host do the same on the logical cache.
-/

namespace Fracture

open Effect Rows PagedKvCacheManager

variable {R W F : Type} {b : Backend R W F}

/-! ## A batch through one node -/

/-- A sequence of a batch with its rows counted by positions. -/
def SequenceSlice.byPositions (s : SequenceSlice) : SequenceSlice :=
  { s with tokenIds := s.positions }

section Node

variable {c : PagedKvCacheManager R} {L : Logical R} {len : CacheHandle → ℕ}
  {sequences : List SequenceSlice}

theorem batchTokens_byPositions (sequences : List SequenceSlice) :
    batchTokens (sequences.map SequenceSlice.byPositions) =
      (sequences.flatMap (·.positions)).length := by
  rw [batchTokens, List.flatMap_map]
  rfl

/-- The hidden state a node starts from has a row for every position. -/
theorem length_batchedInput (hb : b.Sound) {weights : WeightStore W} {nodeConfig : NodeConfig}
    {totalTokens : ℕ} {input : Option (Activations R)} {hiddenState : Activations R}
    (hok : batchedInput b weights nodeConfig sequences totalTokens input = .ok hiddenState) :
    hiddenState.rows.length = totalTokens := by
  unfold batchedInput at hok
  split at hok
  · split at hok
    · cases hok
    · dsimp only at hok
      split at hok
      · cases hok
      · next hcount =>
        obtain ⟨rows, hrows, hok⟩ := except_bind_eq_ok.1 hok
        cases hok
        rw [hb.embedding_length hrows]
        exact not_not.1 hcount
  · split at hok
    · dsimp only at hok
      split at hok
      · cases hok
      · next hshape =>
        cases hok
        exact not_not.1 (not_or.1 hshape).1
    · cases hok

/-- **A batch through one node on the paged cache is the logical one.** -/
theorem batchedForwardNode_related (hb : b.Reliable)
    (hserve : Servable c L len (sequences.map SequenceSlice.byPositions))
    (weights : WeightStore W) (hlayers : weights.layers.length = c.pool.numLayers)
    (nodeConfig : NodeConfig) (hrange : nodeConfig.layerRange.len = weights.layers.length)
    (input : Option (Activations R)) :
    Related Eq
      (CallDone c L (placedBy len (sequences.map SequenceSlice.byPositions)))
      (outcome (batchedForwardNode b weights nodeConfig sequences input c))
      (batchedInput b weights nodeConfig sequences (sequences.flatMap (·.positions)).length input >>=
        runNode b weights L (placedBy len (sequences.map SequenceSlice.byPositions))
          (sequences.flatMap (·.positions)) nodeConfig) := by
  have hne : sequences ≠ [] := fun hnil => hserve.nonempty (by rw [hnil]; rfl)
  have hempty : sequences.isEmpty = false := List.isEmpty_eq_false_iff.2 hne
  have htotal := batchTokens_byPositions sequences
  have hlens : ∀ s ∈ sequences, c.lenOf s.handle = some (len s.handle) := fun s hs =>
    hserve.live s.byPositions (List.mem_map_of_mem hs)
  have hplaced : place 0 (sequences.map fun s => (s.handle, s.positions.length))
      (sequences.map fun s => len s.handle) =
      placedBy len (sequences.map SequenceSlice.byPositions) := by
    rw [placedBy, List.map_map, List.map_map]
    rfl
  obtain ⟨attnOut, hout⟩ := hb.alloc_ok (sequences.flatMap (·.positions)).length
  unfold batchedForwardNode
  rw [if_neg (by rw [hempty]; decide), outcome_lift_bind]
  refine .bind_same (fun _ => rfl) fun hiddenState hinput => ?_
  rw [outcome_get_bind, outcome_lift_bind, startPositions_eq hlens, except_ok_bind,
    outcome_lift_bind]
  refine .bind_left hout ?_
  rw [hplaced, outcome_bind]
  have hloop := hserve.layers_related hb weights hlayers nodeConfig.layerRange hrange
    (sequences.flatMap (·.positions)) ((length_batchedInput hb.toSound hinput).trans htotal.symm)
    ((hb.alloc_length hout).trans htotal.symm)
  rw [htotal] at hloop
  refine hloop.bind ?_
  rintro ⟨x, c'⟩ ⟨y, packed⟩ ⟨rfl, hlen, hdone⟩
  dsimp only at hlen hdone ⊢
  split
  · unfold runOutput
    rw [outcome_lift_bind, bind_assoc]
    refine .bind_same (fun _ => rfl) fun normed hnormed => ?_
    have hstop : ∀ p ∈ placedBy len (sequences.map SequenceSlice.byPositions),
        p.stop ≤ normed.length := fun p hp => by
      rw [hb.rmsnorm_length hnormed, hlen, ← htotal]
      exact ((tiles_placedBy len _).bounds hp).2.2
    rw [outcome_lift_bind, lastLogits_eq hb weights hstop]
    exact .bind_same (fun _ => rfl) fun logits _ => .ok (hdone _)
  · exact .ok (hdone _)

end Node

/-! ## What a host keeps -/

/-- The place of every sequence of a batch under its id. -/
def placedIds (len : ℕ → ℕ) (requests : List SequenceRequest) : List Placed :=
  place 0 (requests.map fun r => (r.seqId, r.positions.length))
    (requests.map fun r => len r.seqId)

/-- Cached lengths after a batch. -/
def lenAfter (len : ℕ → ℕ) (placed : List Placed) (seqId : ℕ) : ℕ :=
  match placed.find? fun p => p.handle = seqId with
  | some p => p.startPos + p.count
  | none => len seqId

namespace HostedCache

/-- The handle of a sequence the host knows. -/
def handleOf (host : HostedCache R) (seqId : ℕ) : CacheHandle :=
  (host.handles.lookup seqId).getD 0

/-- The host keeps `k` layers of its sequences: those of `L`, of the
cached lengths `len`. -/
structure Shows (host : HostedCache R) (L : Logical R) (len : ℕ → ℕ) (k : ℕ) : Prop where
  layers : host.cache.pool.numLayers = k
  live : ∀ {id}, id ∈ host.handles → host.cache.lenOf (host.handleOf id) = some (len id)
  distinct : ∀ {id id'}, id ∈ host.handles → id' ∈ host.handles →
    host.handleOf id = host.handleOf id' → id = id'
  contents : ∃ L₀, host.cache.Represents L₀ ∧
    ∀ {id}, id ∈ host.handles → ∀ l < k, L₀ (host.handleOf id) l = L id l

/-- The blocks a sequence of a batch needs beyond those it has. -/
def newBlocks (host : HostedCache R) (r : SequenceRequest) : ℕ :=
  let len := host.cache.cachedLen (host.handleOf r.seqId)
  blocksFor (len + r.positions.length) - blocksFor len

/-- What callers see to before an operation, and that the blocks for it
are there. -/
def Admits (host : HostedCache R) : ServeOp → Prop
  | .alloc seqId => seqId ∉ host.handles ∧ host.cache.numFreeBlocks ≠ 0
  | .free seqId => seqId ∈ host.handles
  | .forward requests => requests ≠ [] ∧ (requests.map (·.seqId)).Nodup ∧
      (∀ r ∈ requests, r.seqId ∈ host.handles ∧ r.positions.length = r.tokenIds.length) ∧
      (requests.map host.newBlocks).sum ≤ host.cache.numFreeBlocks

instance (host : HostedCache R) (op : ServeOp) : Decidable (host.Admits op) := by
  cases op <;> unfold Admits <;> infer_instance

variable {host : HostedCache R} {L : Logical R} {len : ℕ → ℕ} {k : ℕ}
  {requests : List SequenceRequest} {seqId : ℕ}

theorem lookup_eq_handleOf (h : seqId ∈ host.handles) :
    host.handles.lookup seqId = some (host.handleOf seqId) := by
  obtain ⟨handle, hlook⟩ := Option.isSome_iff_exists.1 (AList.lookup_isSome.2 h)
  rw [handleOf, hlook]
  rfl

/-- One sequence's part of a batch on this host. -/
def slice (host : HostedCache R) (withTokens : Bool) (r : SequenceRequest) : SequenceSlice :=
  { handle := host.handleOf r.seqId, tokenIds := if withTokens then r.tokenIds else [],
    positions := r.positions }

theorem slices_eq (hknown : ∀ r ∈ requests, r.seqId ∈ host.handles) (withTokens : Bool) :
    host.slices withTokens requests = .ok (requests.map (host.slice withTokens)) := by
  refine except_mapM_ok fun r hr => ?_
  rw [lookup_eq_handleOf (hknown r hr)]
  rfl

section

variable (host) (requests : List SequenceRequest)

theorem flatMap_positions_slice (withTokens : Bool) :
    (requests.map (host.slice withTokens)).flatMap (·.positions) =
      requests.flatMap (·.positions) := by
  rw [List.flatMap_map]
  rfl

theorem flatMap_tokenIds_slice :
    (requests.map (host.slice true)).flatMap (·.tokenIds) = requests.flatMap (·.tokenIds) := by
  rw [List.flatMap_map]
  rfl

end

/-- A way to cut a batch into this host's sequences. -/
structure Cuts (host : HostedCache R) (requests : List SequenceRequest)
    (cut : SequenceRequest → SequenceSlice) : Prop where
  handle : ∀ r, (cut r).handle = host.handleOf r.seqId
  positions : ∀ r, (cut r).positions = r.positions
  tokens : ∀ r ∈ requests, (cut r).tokenIds.length = r.positions.length

theorem cuts_whole (hcount : ∀ r ∈ requests, r.positions.length = r.tokenIds.length) :
    host.Cuts requests (host.slice true) :=
  ⟨fun _ => rfl, fun _ => rfl, fun r hr => (hcount r hr).symm⟩

theorem cuts_byPositions (withTokens : Bool) :
    host.Cuts requests fun r => (host.slice withTokens r).byPositions :=
  ⟨fun _ => rfl, fun _ => rfl, fun _ _ => rfl⟩

variable {cut : SequenceRequest → SequenceSlice}

/-- The batch on this host is placed as it is under ids. -/
theorem Shows.placedBy_eq (hshows : host.Shows L len k) (hcut : host.Cuts requests cut)
    (hknown : ∀ r ∈ requests, r.seqId ∈ host.handles) :
    placedBy host.cache.cachedLen (requests.map cut) =
      (placedIds len requests).map (Placed.rename host.handleOf) := by
  have hstarts : ((requests.map cut).map fun s => host.cache.cachedLen s.handle) =
      requests.map fun r => len r.seqId := by
    rw [List.map_map]
    refine List.map_congr_left fun r hr => ?_
    rw [Function.comp_apply, hcut.handle, cachedLen, hshows.live (hknown r hr)]
    rfl
  have hparts : ((requests.map cut).map fun s => (s.handle, s.tokenIds.length)) =
      (requests.map fun r => (r.seqId, r.positions.length)).map
        fun part => (host.handleOf part.1, part.2) := by
    rw [List.map_map, List.map_map]
    refine List.map_congr_left fun r hr => ?_
    rw [Function.comp_apply, hcut.handle, hcut.tokens r hr]
    rfl
  rw [placedIds, ← place_rename, placedBy, hstarts, hparts]

/-- A host that admits a batch can serve it. -/
theorem Shows.servable (hshows : host.Shows L len k) (hcut : host.Cuts requests cut)
    (hadmits : host.Admits (.forward requests)) {L₀ : Logical R}
    (hrep : host.cache.Represents L₀) :
    Servable host.cache L₀ host.cache.cachedLen (requests.map cut) := by
  obtain ⟨hne, hnodup, hknown, hfree⟩ := hadmits
  refine ⟨hrep, ⟨by simpa using hne, ?_, List.forall_mem_map.2 fun r hr => ?_⟩,
    List.forall_mem_map.2 fun r hr => ?_, ?_⟩
  · have hhandles : (requests.map cut).map (·.handle) =
        (requests.map (·.seqId)).map host.handleOf := by
      rw [List.map_map, List.map_map]
      exact List.map_congr_left fun r _ => hcut.handle r
    rw [hhandles]
    refine hnodup.map_on fun id hid id' hid' heq => ?_
    obtain ⟨r, hr, rfl⟩ := List.mem_map.1 hid
    obtain ⟨r', hr', rfl⟩ := List.mem_map.1 hid'
    exact hshows.distinct (hknown r hr).1 (hknown r' hr').1 heq
  · rw [hcut.positions, hcut.tokens r hr]
  · rw [hcut.handle]
    exact lenOf_eq_cachedLen (by rw [hshows.live (hknown r hr).1]; rfl)
  · rw [blocksOn_placedBy, List.map_map]
    refine le_trans (Nat.le_of_eq ?_) hfree
    refine congrArg List.sum (List.map_congr_left fun r hr => ?_)
    rw [Function.comp_apply, SequenceSlice.newBlocks, hcut.handle, hcut.tokens r hr]
    rfl

theorem mem_placedIds {id : ℕ} : id ∈ (placedIds len requests).map (·.handle) ↔
    id ∈ requests.map (·.seqId) := by
  rw [placedIds, map_handle_place _ _ (by simp), List.map_map]
  rfl

/-- The rows of a batch's sequences, by handle and by id. -/
theorem agree_placedIds (hknown : ∀ r ∈ requests, r.seqId ∈ host.handles) {L₀ : Logical R}
    (hagree : ∀ {id}, id ∈ host.handles → ∀ l < k, L₀ (host.handleOf id) l = L id l) :
    ∀ p ∈ placedIds len requests, ∀ i < k, L₀ (host.handleOf p.handle) (0 + i) =
      L p.handle (0 + i) := by
  intro p hp i hi
  obtain ⟨r, hr, heq⟩ := List.mem_map.1 (mem_placedIds.1 (List.mem_map_of_mem hp))
  exact hagree (heq ▸ hknown r hr) _ (by omega)

variable (hshows : host.Shows L len k)
include hshows

/-- **After a batch a host keeps the batch's rows too.** -/
theorem Shows.after (hk : 0 < k) (hadmits : host.Admits (.forward requests)) {L₀ : Logical R}
    (hagree : ∀ {id}, id ∈ host.handles → ∀ l < k, L₀ (host.handleOf id) l = L id l) {α : Type}
    {value value' : α} {c' : PagedKvCacheManager R} {packed : List (Kv → List R)}
    (hdone : CallDone host.cache L₀ ((placedIds len requests).map (Placed.rename host.handleOf))
      (value, c') (value', packed)) :
    { host with cache := c' }.Shows (L.commit (placedIds len requests) packed)
      (lenAfter len (placedIds len requests)) k := by
  obtain ⟨-, hnodup, hknown, -⟩ := hadmits
  have hids : ((placedIds len requests).map (·.handle)).Nodup := by
    rw [placedIds, map_handle_place _ _ (by simp), List.map_map]
    exact hnodup
  have hrenamed : ((placedIds len requests).map (Placed.rename host.handleOf)).map (·.handle) =
      ((placedIds len requests).map (·.handle)).map host.handleOf := by
    rw [List.map_map, List.map_map]
    rfl
  have hplaced : ∀ p ∈ placedIds len requests, p.handle ∈ host.handles := by
    intro p hp
    obtain ⟨r, hr, heq⟩ := List.mem_map.1 (mem_placedIds.1 (List.mem_map_of_mem hp))
    exact heq ▸ (hknown r hr).1
  have hnodup' : (((placedIds len requests).map (Placed.rename host.handleOf)).map
      (·.handle)).Nodup := by
    rw [hrenamed]
    refine hids.map_on fun id hid id' hid' heq => ?_
    obtain ⟨p, hp, rfl⟩ := List.mem_map.1 hid
    obtain ⟨p', hp', rfl⟩ := List.mem_map.1 hid'
    exact hshows.distinct (hplaced p hp) (hplaced p' hp') heq
  -- A sequence outside the batch has none of the batch's handles.
  have hother : ∀ {id}, id ∈ host.handles → id ∉ (placedIds len requests).map (·.handle) →
      host.handleOf id ∉ ((placedIds len requests).map (Placed.rename host.handleOf)).map
        (·.handle) := by
    intro id hid hnot hmem
    rw [hrenamed] at hmem
    obtain ⟨id', hid', heq⟩ := List.mem_map.1 hmem
    obtain ⟨p, hp, rfl⟩ := List.mem_map.1 hid'
    exact hnot (hshows.distinct (hplaced p hp) hid heq ▸ hid')
  refine ⟨hdone.moves.numLayers.trans hshows.layers, fun {id} hid => ?_, hshows.distinct,
    _, hdone.toRepresents, fun {id} hid l hl => ?_⟩
  · by_cases hmem : id ∈ (placedIds len requests).map (·.handle)
    · obtain ⟨p, hp, rfl⟩ := List.mem_map.1 hmem
      have hlive := hdone.live _ (List.mem_map_of_mem hp)
      rw [lenAfter, find_eq_some hids hp]
      rwa [Placed.lenBefore, if_neg (by rw [hshows.layers]; omega)] at hlive
    · rw [lenAfter, find_eq_none hmem]
      exact (hdone.moves.others (hother hid hmem)).trans (hshows.live hid)
  · funext kv
    by_cases hmem : id ∈ (placedIds len requests).map (·.handle)
    · obtain ⟨p, hp, rfl⟩ := List.mem_map.1 hmem
      have hlen : packed.length = k := hdone.length_packed.trans hshows.layers
      have hrow : packed[l]? = some packed[l] := List.getElem?_eq_getElem (by omega)
      have hcommit := L₀.commit_of_mem hnodup' (List.mem_map_of_mem hp) hrow kv
      rw [L.commit_of_mem hids hp hrow kv, ← hagree hid l hl]
      exact hcommit
    · have hcommit := L₀.commit_of_notMem (hother hid hmem) packed
      rw [L.commit_of_notMem hmem]
      exact (congrFun (congrFun hcommit l) kv).trans (congrFun (hagree hid l hl) kv)

/-- A host shows any logical cache that agrees with the one it shows. -/
theorem Shows.congr {L' : Logical R} (heq : ∀ id, ∀ l < k, L' id l = L id l) :
    host.Shows L' len k := by
  obtain ⟨L₀, hrep, hagree⟩ := hshows.contents
  exact ⟨hshows.layers, hshows.live, hshows.distinct, L₀, hrep, fun {id} hid l hl =>
    (hagree hid l hl).trans (heq id l hl).symm⟩

/-- A handle in use is not the next one. -/
theorem Shows.handleOf_ne_nextId {id : ℕ} (hid : id ∈ host.handles) :
    host.handleOf id ≠ host.cache.nextId := by
  obtain ⟨L₀, hrep, -⟩ := hshows.contents
  obtain ⟨seq, hseq, -⟩ := lenOf_eq_some.1 (hshows.live hid)
  have hlt := hrep.fresh _ (AList.lookup_isSome.1 (by rw [hseq]; rfl))
  exact Nat.ne_of_lt hlt

/-- **Allocating on a host** gives the sequence an empty cache. -/
theorem Shows.cacheAlloc (hadmits : host.Admits (.alloc seqId)) :
    ∃ host', host.cacheAlloc seqId = .ok host' ∧
      host'.Shows (L.clear seqId) (Function.update len seqId 0) k := by
  obtain ⟨hnew, hfree⟩ := hadmits
  obtain ⟨c', hok⟩ := alloc_eq_ok hfree
  have halloc := allocOk hok
  obtain ⟨L₀, hrep, hagree⟩ := hshows.contents
  have hlook : host.handles.lookup seqId = none := AList.lookup_eq_none.2 hnew
  refine ⟨{ cache := c', handles := host.handles.insert seqId host.cache.nextId }, ?_, ?_⟩
  · rw [HostedCache.cacheAlloc, hlook]
    rw [hok]
    rfl
  have hself : handleOf { cache := c', handles := host.handles.insert seqId host.cache.nextId }
      seqId = host.cache.nextId := by
    rw [handleOf, AList.lookup_insert]
    rfl
  have hother : ∀ {id}, id ≠ seqId →
      handleOf { cache := c', handles := host.handles.insert seqId host.cache.nextId } id =
        host.handleOf id := fun hne => by
    rw [handleOf, AList.lookup_insert_ne hne]
    rfl
  have hknown : ∀ {id}, id ≠ seqId → id ∈ host.handles.insert seqId host.cache.nextId →
      id ∈ host.handles := fun hne hid => ((AList.mem_insert _).1 hid).resolve_left hne
  refine ⟨halloc.numLayers.trans hshows.layers, fun {id} hid => ?_, fun {id id'} hid hid' heq => ?_,
    L₀.clear host.cache.nextId, hrep.alloc hok, fun {id} hid l hl => ?_⟩
  · by_cases hne : id = seqId
    · subst hne
      rw [hself, Function.update_self]
      exact halloc.live
    · rw [hother hne, Function.update_of_ne hne]
      exact (halloc.others (hshows.handleOf_ne_nextId (hknown hne hid))).trans
        (hshows.live (hknown hne hid))
  · by_cases hne : id = seqId <;> by_cases hne' : id' = seqId
    · rw [hne, hne']
    · subst hne
      rw [hself, hother hne'] at heq
      exact absurd heq.symm (hshows.handleOf_ne_nextId (hknown hne' hid'))
    · subst hne'
      rw [hself, hother hne] at heq
      exact absurd heq (hshows.handleOf_ne_nextId (hknown hne hid))
    · rw [hother hne, hother hne'] at heq
      exact hshows.distinct (hknown hne hid) (hknown hne' hid') heq
  · by_cases hne : id = seqId
    · subst hne
      rw [hself, Logical.clear, if_pos rfl, Logical.clear, if_pos rfl]
    · rw [hother hne, Logical.clear, if_neg (hshows.handleOf_ne_nextId (hknown hne hid)),
        Logical.clear, if_neg hne]
      exact hagree (hknown hne hid) l hl

/-- **Freeing on a host** leaves the other sequences. -/
theorem Shows.cacheFree (hadmits : host.Admits (.free seqId)) :
    ∃ host', host.cacheFree seqId = .ok host' ∧ host'.Shows L len k := by
  obtain ⟨c', hok⟩ := free_eq_ok (hshows.live hadmits)
  obtain ⟨L₀, hrep, hagree⟩ := hshows.contents
  have hfreed := freeOk hok
  refine ⟨{ cache := c', handles := host.handles.erase seqId }, ?_, ?_⟩
  · rw [HostedCache.cacheFree, lookup_eq_handleOf hadmits]
    dsimp only
    rw [hok]
    rfl
  have hmem : ∀ {id}, id ∈ host.handles.erase seqId → id ≠ seqId ∧ id ∈ host.handles := fun hid =>
    AList.mem_erase.1 hid
  have hother : ∀ {id}, id ≠ seqId →
      handleOf { cache := c', handles := host.handles.erase seqId } id = host.handleOf id :=
    fun hne => by
      rw [handleOf, AList.lookup_erase_ne hne]
      rfl
  refine ⟨hfreed.numLayers.trans hshows.layers, fun {id} hid => ?_, fun {id id'} hid hid' heq => ?_,
    L₀, hrep.free hok, fun {id} hid l hl => ?_⟩
  · obtain ⟨hne, hid⟩ := hmem hid
    rw [hother hne]
    exact (hfreed.others fun heq => hne (hshows.distinct hid hadmits heq)).trans (hshows.live hid)
  · obtain ⟨hne, hid⟩ := hmem hid
    obtain ⟨hne', hid'⟩ := hmem hid'
    rw [hother hne, hother hne'] at heq
    exact hshows.distinct hid hid' heq
  · obtain ⟨hne, hid⟩ := hmem hid
    rw [hother hne]
    exact hagree hid l hl

end HostedCache

end Fracture
