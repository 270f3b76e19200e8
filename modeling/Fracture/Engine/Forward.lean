import Fracture.Engine.Node
import Fracture.Engine.Refinement

/-!
# Whole forward passes on the paged cache

`batchedForward`, `batchedForwardNode` and the forward pass of a single
sequence, each run on a paged cache that represents a logical cache,
give what the logical forward pass gives and leave a cache that
represents the logical cache with the batch committed.
-/

namespace Fracture

open Effect Rows PagedKvCacheManager

variable {R W F : Type} {b : Backend R W F} {c : PagedKvCacheManager R} {L : Logical R}

/-! ## Placing a batch -/

section

variable (offset : ℕ) (parts : List (CacheHandle × ℕ)) {starts : List ℕ}
  (hlen : starts.length = parts.length)
include hlen

/-- Each part is placed with its handle and its rows. -/
theorem map_part_place :
    (place offset parts starts).map (fun p => (p.handle, p.count)) = parts := by
  induction parts generalizing offset starts with
  | nil =>
    rw [List.length_eq_zero_iff.1 hlen]
    rfl
  | cons part rest ih =>
    obtain _ | ⟨startPos, more⟩ := starts
    · cases hlen
    · rw [place, List.map_cons, ih _ (Nat.succ_injective hlen), Placed.count,
        Nat.add_sub_cancel_left]

theorem map_handle_place : (place offset parts starts).map (·.handle) = parts.map (·.1) := by
  nth_rewrite 2 [← map_part_place offset parts hlen]
  rw [List.map_map]
  rfl

theorem length_place : (place offset parts starts).length = parts.length := by
  simpa using congrArg List.length (map_handle_place offset parts hlen)

end

/-- The place of every sequence of a batch, for cached lengths `len`. -/
def placedBy (len : CacheHandle → ℕ) (sequences : List SequenceSlice) : List Placed :=
  place 0 (sequences.map fun s => (s.handle, s.tokenIds.length))
    (sequences.map fun s => len s.handle)

/-- The tokens of a batch. -/
def batchTokens (sequences : List SequenceSlice) : ℕ := (sequences.flatMap (·.tokenIds)).length

/-- What the callers of a batched forward pass see to: there is a
sequence, no sequence comes twice, and each token has its position. -/
structure ProperBatch (sequences : List SequenceSlice) : Prop where
  nonempty : sequences ≠ []
  nodup : (sequences.map (·.handle)).Nodup
  positions : ∀ s ∈ sequences, s.positions.length = s.tokenIds.length

section PlacedBy

variable (len : CacheHandle → ℕ) (sequences : List SequenceSlice)

theorem tiles_placedBy : Tiles 0 (placedBy len sequences) (batchTokens sequences) := by
  have hlen : (sequences.map fun s => len s.handle).length =
      (sequences.map fun s => (s.handle, s.tokenIds.length)).length := by simp
  have htiles := Tiles.of_place 0 _ hlen
  rw [Nat.zero_add, List.map_map] at htiles
  rw [batchTokens, List.length_flatMap]
  exact htiles

theorem map_handle_placedBy :
    (placedBy len sequences).map (·.handle) = sequences.map (·.handle) := by
  rw [placedBy, map_handle_place _ _ (by simp), List.map_map]
  rfl

/-- The place of each sequence. -/
theorem forall₂_placedBy :
    List.Forall₂ (fun s p => p.handle = s.handle ∧ p.startPos = len s.handle ∧
      p.count = s.tokenIds.length) sequences (placedBy len sequences) := by
  unfold placedBy
  generalize 0 = offset
  induction sequences generalizing offset with
  | nil => exact .nil
  | cons s sequences ih => exact .cons ⟨rfl, rfl, Nat.add_sub_cancel_left ..⟩ (ih _)

variable {len sequences}

theorem lenOf_placedBy (hlive : ∀ s ∈ sequences, c.lenOf s.handle = some (len s.handle)) :
    ∀ p ∈ placedBy len sequences, c.lenOf p.handle = some p.startPos := by
  intro p hp
  obtain ⟨s, hs, hhandle, hstart, -⟩ := exists_left (forall₂_placedBy len sequences) hp
  rw [hhandle, hstart]
  exact hlive s hs

/-- Positions count the same rows as token ids. -/
theorem ProperBatch.length_positions (h : ProperBatch sequences) :
    (sequences.flatMap (·.positions)).length = batchTokens sequences := by
  rw [batchTokens, List.length_flatMap, List.length_flatMap]
  exact congrArg List.sum (List.map_congr_left h.positions)

end PlacedBy

/-! ## What a forward pass leaves -/

theorem length_runLayers {cfg : ModelConfig} {placed : List Placed} {positions : List ℕ}
    {ws : List (LayerWeights W)} {l : ℕ} {x y : List R} {packed : List (Kv → List R)}
    (hok : runLayers b cfg L placed positions ws l x = .ok (y, packed)) :
    packed.length = ws.length := by
  induction ws generalizing l x y packed with
  | nil =>
    cases hok
    rfl
  | cons w ws ih =>
    obtain ⟨⟨x₁, rows⟩, -, hok⟩ := except_bind_eq_ok.1 hok
    obtain ⟨⟨x₂, more⟩, hmore, hok⟩ := except_bind_eq_ok.1 hok
    cases hok
    rw [List.length_cons, List.length_cons, ih hmore]

/-- What a forward pass returns on the paged cache and the cache it
leaves, against the value and the keys and values of the logical one. -/
structure CallDone {α : Type} (c : PagedKvCacheManager R) (L : Logical R) (placed : List Placed)
    (r : α × PagedKvCacheManager R) (y : α × List (Kv → List R)) : Prop
    extends r.2.Represents (L.commit placed y.2) where
  value : r.1 = y.1
  length_packed : y.2.length = c.pool.numLayers
  live : ∀ p ∈ placed, r.2.lenOf p.handle = some (p.lenBefore c.pool.numLayers)
  moves : Moves (placed.map (·.handle))
    (if c.pool.numLayers = 0 then 0 else blocksOn 0 placed) c r.2

/-- A cache on which all layers of a batch are done represents the
logical cache with the batch committed. -/
theorem MidBatch.callDone {placed : List Placed} {total : ℕ}
    (htiles : Tiles 0 placed total) (hnodup : (placed.map (·.handle)).Nodup)
    (hc : c.Represents L)
    (hrows : ∀ p ∈ placed, ∀ l < c.pool.numLayers, ∀ kv, (L p.handle l kv).length = p.startPos)
    {packed : List (Kv → List R)} {c' : PagedKvCacheManager R}
    (hdone : MidBatch c L placed total packed c') (hlen : packed.length = c.pool.numLayers)
    {α : Type} (value : α) : CallDone c L placed (value, c') (value, packed) := by
  obtain ⟨hviews, hlens, hlive, hmoves⟩ := hdone
  rw [hlen] at hlive
  refine ⟨⟨hviews, fun {h len'} hlook {l} hl kv => ?_⟩, rfl, hlen, hlive, ?_⟩
  · rw [hmoves.numLayers] at hl
    obtain ⟨rows, hrow⟩ : ∃ rows, packed[l]? = some rows :=
      ⟨_, List.getElem?_eq_getElem (by omega)⟩
    by_cases hmem : h ∈ placed.map (·.handle)
    · obtain ⟨p, hp, rfl⟩ := List.mem_map.1 hmem
      cases (hlive p hp).symm.trans hlook
      rw [L.commit_of_mem hnodup hp hrow, List.length_append, hrows p hp l hl,
        htiles.length_rows hp (hlens rows (List.mem_of_getElem? hrow) kv), Placed.lenBefore,
        if_neg (by omega)]
    · rw [hmoves.others hmem] at hlook
      rw [L.commit_of_notMem hmem, hc.level hlook hl kv]
  · have hzero : packed = [] ↔ c.pool.numLayers = 0 := by rw [← hlen, List.length_eq_zero_iff]
    simpa only [hzero] using hmoves

/-! ## The batched forward passes -/

/-- A cache that can serve a batch. -/
structure Servable (c : PagedKvCacheManager R) (L : Logical R) (len : CacheHandle → ℕ)
    (sequences : List SequenceSlice) : Prop extends c.Represents L, ProperBatch sequences where
  live : ∀ s ∈ sequences, c.lenOf s.handle = some (len s.handle)
  free : blocksOn 0 (placedBy len sequences) ≤ c.numFreeBlocks

section Batched

variable {len : CacheHandle → ℕ} {sequences : List SequenceSlice}

theorem startPositions_eq (hlive : ∀ s ∈ sequences, c.lenOf s.handle = some (len s.handle)) :
    startPositions c sequences = .ok (sequences.map fun s => len s.handle) :=
  except_mapM_ok fun s hs => seqLen_eq_ok.2 (hlive s hs)

/-- Copying one row out of a tensor. -/
theorem extractRow_eq (hb : b.Reliable) {x : List R} {row : ℕ} (hrow : row + 1 ≤ x.length) :
    extractRow b x row = .ok (window x row 1) := by
  obtain ⟨t, ht⟩ := hb.alloc_ok 1
  have htlen := hb.alloc_length ht
  rw [extractRow, ht, except_ok_bind, hb.copyRows_eq_ok hrow (by omega),
    overwrite_zero_of_length_eq (by rw [length_window hrow, htlen])]

/-- Extracting the last row of each sequence and projecting it. -/
theorem lastLogits_eq (hb : b.Reliable) (weights : WeightStore W) {placed : List Placed}
    {normed : List R} (hstop : ∀ p ∈ placed, p.stop ≤ normed.length) :
    lastLogits b weights normed placed = projectEnds b weights placed normed := by
  refine except_mapM_congr fun p hp => ?_
  cases hsub : checkedSub p.stop 1 with
  | error e => rfl
  | ok lastIdx =>
    obtain ⟨hle, rfl⟩ := checkedSub_eq_ok.1 hsub
    have hin : p.stop - 1 + 1 ≤ normed.length := by have := hstop p hp; omega
    rw [except_ok_bind, except_ok_bind, extractRow_eq hb hin, except_ok_bind]

namespace Servable

variable (hserve : Servable c L len sequences)
include hserve

theorem nodup_placed :
    ((placedBy len sequences).map (·.handle)).Nodup := by
  rw [map_handle_placedBy]
  exact hserve.nodup

theorem live_placed :
    ∀ p ∈ placedBy len sequences, c.lenOf p.handle = some p.startPos :=
  lenOf_placedBy hserve.live

theorem rows_placed :
    ∀ p ∈ placedBy len sequences, ∀ l < c.pool.numLayers, ∀ kv,
      (L p.handle l kv).length = p.startPos :=
  fun p hp _ hl => hserve.level (hserve.live_placed p hp) hl

/-- A pass that did all layers of a batch on a cache that can serve it. -/
theorem callDone {packed : List (Kv → List R)} {c' : PagedKvCacheManager R}
    (hmid : MidBatch c L (placedBy len sequences) (batchTokens sequences) packed c')
    (hlen : packed.length = c.pool.numLayers) {α : Type} (value : α) :
    CallDone c L (placedBy len sequences) (value, c') (value, packed) :=
  hmid.callDone (tiles_placedBy len sequences) hserve.nodup_placed hserve.toRepresents
    hserve.rows_placed hlen value

end Servable

variable (hb : b.Reliable) (hserve : Servable c L len sequences) (weights : WeightStore W)
  (hlayers : weights.layers.length = c.pool.numLayers) (range : LayerRange)
  (hrange : range.len = weights.layers.length)
include hb hserve hlayers hrange

/-- The layers of a batch on a cache that can serve it. -/
theorem Servable.layers_related (positions : List ℕ) {x attnOut : List R}
    (hx : x.length = batchTokens sequences) (hout : attnOut.length = batchTokens sequences) :
    Related Eq
      (fun r y => r.1 = y.1 ∧ r.1.length = batchTokens sequences ∧
        ∀ {α : Type} (value : α), CallDone c L (placedBy len sequences) (value, r.2)
          (value, y.2))
      (outcome (batchedLayers b weights positions (placedBy len sequences) range.start
        range.layers x attnOut c))
      (runLayers b weights.config L (placedBy len sequences) positions weights.layers 0 x) := by
  have hloop := batchedLayers_related hb (tiles_placedBy len sequences) hserve.nodup_placed weights
    hlayers.le positions range.start hserve.toViews hserve.rows_placed hserve.live_placed
    hserve.free hx hout
  rw [← hrange] at hloop
  refine hloop.with_right.mono (fun _ _ h => h) fun r y ⟨⟨heq, hlen, hmid⟩, hok⟩ => ?_
  exact ⟨heq, hlen, hserve.callDone hmid ((length_runLayers hok).trans hlayers)⟩

/-- **A batched forward pass on the paged cache is the logical one.** -/
theorem batchedForward_related :
    Related Eq (CallDone c L (placedBy len sequences))
      (outcome (batchedForward b weights range sequences c))
      (runModel b weights L (placedBy len sequences) (sequences.flatMap (·.tokenIds))
        (sequences.flatMap (·.positions))) := by
  have hempty : sequences.isEmpty = false := List.isEmpty_eq_false_iff.2 hserve.nonempty
  obtain ⟨attnOut, hout⟩ := hb.alloc_ok (batchTokens sequences)
  unfold batchedForward runModel
  rw [if_neg (by rw [hempty]; decide), outcome_get_bind, outcome_lift_bind,
    startPositions_eq hserve.live, except_ok_bind, outcome_lift_bind]
  refine .bind_same (fun _ => rfl) fun x hx => ?_
  rw [outcome_lift_bind]
  refine .bind_left hout ?_
  rw [outcome_bind]
  refine (hserve.layers_related hb weights hlayers range hrange _ (hb.embedding_length hx)
    (hb.alloc_length hout)).bind ?_
  rintro ⟨x', c'⟩ ⟨y, packed⟩ ⟨rfl, hlen, hdone⟩
  dsimp only at hlen hdone ⊢
  unfold runOutput
  rw [outcome_lift_bind, bind_assoc]
  refine .bind_same (fun _ => rfl) fun normed hnormed => ?_
  have hstop : ∀ p ∈ placedBy len sequences, p.stop ≤ normed.length := fun p hp => by
    rw [hb.rmsnorm_length hnormed, hlen]
    exact ((tiles_placedBy len sequences).bounds hp).2.2
  have hproject := lastLogits_eq hb weights hstop
  rw [outcome_lift]
  change Related Eq _ (lastLogits b weights normed (placedBy len sequences) >>= _) _
  rw [hproject]
  exact .bind_same (fun _ => rfl) fun logits _ => .ok (hdone logits)

end Batched

end Fracture
