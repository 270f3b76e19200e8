import Fracture.Engine.Alone
import Fracture.Engine.Reference
import Fracture.PagedCache.Contents

/-!
# Packing does not show

A batch on the paged cache, and the same sequences run one after the
other in any order on the same cache, succeed together; then each
sequence has the same logits, and the two caches have the same contents.
This needs the heads of a query to fill its row: otherwise a view by heads
cuts its rows out of a neighbour's.
-/

namespace Fracture

open Effect PagedKvCacheManager

variable {R W F C : Type}

/-- The sequences of a batch run alone, one after the other. -/
def Engine.runAlone [PagedCache C R] (e : Engine R W F) (slices : List SequenceSlice) :
    EStateM Fault C (List (List F)) :=
  slices.mapM fun s => e.forwardPaged s.tokenIds s.positions s.handle

variable {e : Engine R W F} {c c' : PagedKvCacheManager R} {L : Logical R} {len : CacheHandle → ℕ}
  {slices : List SequenceSlice}

/-- A cache that has served some sequences: each has its keys and values
appended, and the others are as they were. -/
structure Served (c : PagedKvCacheManager R) (L : Logical R) (len : CacheHandle → ℕ)
    (results : List (SequenceSlice × List (Kv → List R))) (c' : PagedKvCacheManager R) : Prop where
  contents : ∃ L', c'.Represents L' ∧ Committed c.pool.numLayers L L' results
  live : ∀ r ∈ results, c'.lenOf r.1.handle = some (len r.1.handle + r.1.tokenIds.length)
  others : ∀ {h}, h ∉ results.map (·.1.handle) → c'.lenOf h = c.lenOf h
  numLayers : c'.pool.numLayers = c.pool.numLayers

variable {results : List (SequenceSlice × List (Kv → List R))}

/-- Two caches that have served the same sequences have the same contents. -/
theorem Served.sameContents {results' : List (SequenceSlice × List (Kv → List R))}
    {c₁ c₂ : PagedKvCacheManager R} (h₁ : Served c L len results c₁)
    (h₂ : Served c L len results' c₂) (hperm : results.Perm results') : c₁.SameContents c₂ := by
  obtain ⟨L₁, hc₁, hcommitted₁⟩ := h₁.contents
  obtain ⟨L₂, hc₂, hcommitted₂⟩ := h₂.contents
  refine hc₁.sameContents hc₂ (fun h => ?_) (h₂.numLayers.trans h₁.numLayers.symm)
    fun {h _} _ l hl kv => hcommitted₁.agree hcommitted₂ hperm h (h₁.numLayers ▸ hl) kv
  by_cases hmem : h ∈ results.map (·.1.handle)
  · obtain ⟨r, hr, rfl⟩ := List.mem_map.1 hmem
    rw [h₁.live r hr, h₂.live r (hperm.mem_iff.1 hr)]
  · have hmem' : h ∉ results'.map (·.1.handle) := by
      rwa [(hperm.map _).mem_iff] at hmem
    rw [h₁.others hmem, h₂.others hmem']

/-- One sequence served before others. -/
theorem Served.cons {s : SequenceSlice} {packed : List (Kv → List R)} {c₁ : PagedKvCacheManager R}
    {L₁ : Logical R} (hcommitted : Committed c.pool.numLayers L L₁ [(s, packed)])
    (hlive : c₁.lenOf s.handle = some (len s.handle + s.tokenIds.length))
    (hothers : ∀ {h}, h ≠ s.handle → c₁.lenOf h = c.lenOf h)
    (hlayers : c₁.pool.numLayers = c.pool.numLayers) (hrest : Served c₁ L₁ len results c')
    (hs : s.handle ∉ results.map (·.1.handle)) : Served c L len ((s, packed) :: results) c' := by
  obtain ⟨L', hc', hcommitted'⟩ := hrest.contents
  rw [hlayers] at hcommitted'
  refine ⟨⟨L', hc', hcommitted.cons hcommitted' hs⟩, fun r hr => ?_, fun {h} hh => ?_,
    hrest.numLayers.trans hlayers⟩
  · rcases List.mem_cons.1 hr with rfl | hr
    · rw [hrest.others hs, hlive]
    · exact hrest.live r hr
  · rw [List.map_cons, List.mem_cons, not_or] at hh
    rw [hrest.others hh.2, hothers hh.1]

theorem CallDone.served {α : Type} {value value' : α} {packed : List (Kv → List R)}
    (hpos : 0 < c.pool.numLayers)
    (hdone : CallDone c L (placedBy len slices) (value, c') (value', packed))
    (hslices : results.map (·.1) = slices)
    (hcommitted : Committed c.pool.numLayers L (L.commit (placedBy len slices) packed) results) :
    Served c L len results c' := by
  have hhandles : results.map (·.1.handle) = slices.map (·.handle) := by
    rw [← hslices, List.map_map]
    rfl
  refine ⟨⟨_, hdone.toRepresents, hcommitted⟩, fun r hr => ?_, fun {h} hh => ?_,
    hdone.moves.numLayers⟩
  · have hmem : r.1 ∈ slices := hslices ▸ List.mem_map_of_mem hr
    obtain ⟨p, hp, hhandle, hstart, hcount⟩ :=
      Rows.exists_right (forall₂_placedBy len slices) hmem
    have hlive := hdone.live p hp
    rwa [hhandle, Placed.lenBefore, if_neg (by omega), hstart, hcount] at hlive
  · refine hdone.moves.others ?_
    rwa [map_handle_placedBy, ← hhandles]

/-! ## One after the other -/

/-- A cache that can serve each of some sequences, one after the other. -/
structure ServesAll (e : Engine R W F) (c : PagedKvCacheManager R) (L : Logical R)
    (len : CacheHandle → ℕ) (slices : List SequenceSlice) : Prop extends c.Represents L where
  layers : e.config.numLayers = c.pool.numLayers
  nodup : (slices.map (·.handle)).Nodup
  positions : ∀ s ∈ slices, s.positions.length = s.tokenIds.length
  tokens : ∀ s ∈ slices, s.tokenIds ≠ []
  inRange : ∀ s ∈ slices, ∀ p ∈ s.positions, p < e.config.maxSeqLen
  live : ∀ s ∈ slices, c.lenOf s.handle = some (len s.handle)
  free : (slices.map (SequenceSlice.newBlocks len)).sum ≤ c.numFreeBlocks

namespace ServesAll

variable {s : SequenceSlice}

theorem servable (h : ServesAll e c L len (s :: slices)) : Servable c L len [s] := by
  have hs : s ∈ s :: slices := List.mem_cons_self
  have hfree := h.free
  rw [List.map_cons, List.sum_cons] at hfree
  refine ⟨h.toRepresents, ⟨by simp, by simp, ?_⟩, ?_, ?_⟩
  · simpa using h.positions s hs
  · simpa using h.live s hs
  · rw [blocksOn_placedBy, List.map_singleton, List.sum_singleton]
    omega

/-- After its first sequence, the cache serves the others. -/
theorem tail (h : ServesAll e c L len (s :: slices)) {L₁ : Logical R} {c₁ : PagedKvCacheManager R}
    (hc₁ : c₁.Represents L₁) (hmoves : Moves [s.handle] (s.newBlocks len) c c₁) :
    ServesAll e c₁ L₁ len slices := by
  have hmem : ∀ {s'}, s' ∈ slices → s' ∈ s :: slices := List.mem_cons_of_mem s
  obtain ⟨hnotMem, hnodup⟩ := List.nodup_cons.1 h.nodup
  have hfree := h.free
  have hfree' := hmoves.free
  rw [List.map_cons, List.sum_cons] at hfree
  refine ⟨hc₁, h.layers.trans hmoves.numLayers.symm, hnodup, fun s' hs' => h.positions s' (hmem hs'),
    fun s' hs' => h.tokens s' (hmem hs'), fun s' hs' => h.inRange s' (hmem hs'),
    fun s' hs' => ?_, by omega⟩
  rw [hmoves.others]
  · exact h.live s' (hmem hs')
  · rw [List.mem_singleton]
    exact fun heq => hnotMem (List.mem_map.2 ⟨s', hs', heq⟩)

end ServesAll

/-- What is committed for one sequence does not reach the others. -/
theorem mapM_runSlice_commit {s : SequenceSlice} (hs : s.handle ∉ slices.map (·.handle))
    (packed : List (Kv → List R)) :
    slices.mapM (runSlice e.backend e.weights (L.commit (placedBy len [s]) packed) len) =
      slices.mapM (runSlice e.backend e.weights L len) := by
  refine except_mapM_congr fun s' hs' => ?_
  have hne : s'.handle ∉ (placedBy len [s]).map (·.handle) := by
    rw [map_handle_placedBy, List.map_singleton, List.mem_singleton]
    exact fun heq => hs (List.mem_map.2 ⟨s', hs', heq⟩)
  have heq : ∀ p ∈ placedBy len [s'], L.commit (placedBy len [s]) packed p.handle = L p.handle := by
    intro p hp
    rw [placedBy_singleton, List.mem_singleton] at hp
    subst hp
    exact L.commit_of_notMem hne packed
  rw [runSlice, runSlice, runModel_congr heq]

/-- **Sequences run one after the other each get the logical pass of
their own.** -/
theorem runAlone_together (hb : e.backend.Reliable) (hfull : e.Full)
    (hserves : ServesAll e c L len slices) :
    Together
      (fun r rs => r.1 = rs.map (·.1) ∧ rs.length = slices.length ∧
        Served c L len (slices.zip (rs.map (·.2))) r.2)
      (outcome (e.runAlone slices c)) (slices.mapM (runSlice e.backend e.weights L len)) := by
  induction slices generalizing c L with
  | nil =>
    refine .ok ⟨rfl, rfl, ⟨L, hserves.toRepresents, ?_⟩, by simp, fun _ => rfl, rfl⟩
    exact ⟨by simp, by simp, fun _ => rfl⟩
  | cons s rest ih =>
    have hs : s ∈ s :: rest := List.mem_cons_self
    have hlayers := hserves.layers
    have hpos : 0 < c.pool.numLayers := hlayers ▸ hfull.pos
    have hservable := hserves.servable
    have hfirst := (forwardPaged_related hb hfull hservable hlayers (hserves.tokens s hs)
      (hserves.inRange s hs)).trans (runSlice_together hb.toSound e.weights L len s).with_left
    unfold Engine.runAlone
    rw [List.mapM_cons, List.mapM_cons, outcome_bind]
    refine hfirst.together.bind ?_
    rintro ⟨values, c₁⟩ ⟨_, packed⟩ ⟨y, hdone, rfl, hok⟩
    have hvalue := hdone.value
    rw [List.singleton_inj] at hvalue
    subst hvalue
    obtain ⟨-, hlen, hrows⟩ := length_runModel hb.toSound hok
    have hcommitted := committed_singleton L len
      (hlen.trans (hfull.layers.trans hlayers)) hrows
    have hserved : Served c L len [(s, packed)] c₁ := hdone.served hpos rfl hcommitted
    have hmoves : Moves [s.handle] (s.newBlocks len) c c₁ := by
      have := hdone.moves
      rwa [if_neg (by omega), map_handle_placedBy, blocksOn_placedBy, List.map_singleton,
        List.map_singleton, List.sum_singleton] at this
    have hnotMem := (List.nodup_cons.1 hserves.nodup).1
    have hrest := ih (hserves.tail hdone.toRepresents hmoves)
    rw [mapM_runSlice_commit hnotMem] at hrest
    rw [outcome_bind]
    refine hrest.bind ?_
    rintro ⟨more, c'⟩ rs ⟨rfl, hcount, hserved'⟩
    have hzip : (rest.zip (rs.map (·.2))).map (·.1) = rest :=
      List.map_fst_zip (by rw [List.length_map, hcount])
    refine .ok ⟨rfl, by rw [List.length_cons, hcount, List.length_cons], ?_⟩
    refine Served.cons hcommitted (hserved.live _ (List.mem_singleton_self _))
      (fun hne => hmoves.others (by simpa using hne)) hmoves.numLayers hserved' ?_
    have hhandles : (rest.zip (rs.map (·.2))).map (·.1.handle) = rest.map (·.handle) := by
      rw [← hzip, List.map_map, hzip]
      rfl
    exact hhandles ▸ hnotMem

/-- A batch of distinct live sequences with tokens, on a cache that has the
blocks for it. -/
structure Packable (e : Engine R W F) (c : PagedKvCacheManager R) (slices : List SequenceSlice) :
    Prop extends ProperBatch slices where
  fitting : c.Fitting
  layers : e.config.numLayers = c.pool.numLayers
  tokens : ∀ s ∈ slices, s.tokenIds ≠ []
  inRange : ∀ s ∈ slices, ∀ p ∈ s.positions, p < e.config.maxSeqLen
  live : ∀ s ∈ slices, (c.lenOf s.handle).isSome
  free : (slices.map (SequenceSlice.newBlocks c.cachedLen)).sum ≤ c.numFreeBlocks

/-- **Packing does not show** on an engine: a batch succeeds exactly when its
sequences run alone one after the other do, in any order; each sequence
then has the same logits either way, and both leave the same contents. -/
def Engine.PacksUnseen (e : Engine R W F) : Prop :=
  ∀ c slices order, Packable e c slices → slices.Perm order →
    Together
      (fun r r' => r.1.length = slices.length ∧ r'.1.length = order.length ∧
        (slices.zip r.1).Perm (order.zip r'.1) ∧ r.2.SameContents r'.2)
      (outcome (batchedForward e.backend e.weights e.layerRange slices c))
      (outcome (e.runAlone order c))

namespace Packable

variable (h : Packable e c slices)
include h

theorem servable : Servable c c.contents c.cachedLen slices :=
  ⟨h.fitting.represents, h.toProperBatch, fun s hs => lenOf_eq_cachedLen (h.live s hs),
    by rw [blocksOn_placedBy]; exact h.free⟩

theorem servesAll {order : List SequenceSlice} (horder : slices.Perm order) :
    ServesAll e c c.contents c.cachedLen order := by
  refine ⟨h.fitting.represents, h.layers, (horder.map _).nodup_iff.1 h.nodup, ?_, ?_, ?_, ?_, ?_⟩
  · exact fun s hs => h.positions s (horder.mem_iff.2 hs)
  · exact fun s hs => h.tokens s (horder.mem_iff.2 hs)
  · exact fun s hs => h.inRange s (horder.mem_iff.2 hs)
  · exact fun s hs => lenOf_eq_cachedLen (h.live s (horder.mem_iff.2 hs))
  · rw [← (horder.map _).sum_nat]
    exact h.free

/-- The batch is the logical pass. -/
theorem batched (hb : e.backend.Reliable) (hfull : e.Full) :
    Together (CallDone c c.contents (placedBy c.cachedLen slices))
      (outcome (batchedForward e.backend e.weights e.layerRange slices c))
      (runModel e.backend e.weights c.contents (placedBy c.cachedLen slices)
        (slices.flatMap (·.tokenIds)) (slices.flatMap (·.positions))) := by
  refine (batchedForward_related hb h.servable e.weights (hfull.layers.trans h.layers) e.layerRange
    ?_).together
  rw [LayerRange.len, hfull.start, hfull.stop, hfull.layers, Nat.sub_zero]

end Packable

/-- A packed batch is its sequences run alone, on a backend that acts row by
row, where the heads of a query fill its row. -/
theorem Engine.packsUnseen (hb : e.backend.Reliable) (hrow : e.backend.RowWise) (hfull : e.Full)
    (hwidth : e.config.numQHeads * e.config.headDim = e.config.hiddenSize) : e.PacksUnseen := by
  intro c slices order h horder
  -- Both sides meet in the logical pass of each sequence on its own.
  have hbatch := (h.batched hb hfull).trans
    (runModel_each hb.toSound hrow hwidth h.toProperBatch h.tokens)
  have halone := (runAlone_together hb hfull (h.servesAll horder)).symm
  have hperm := together_mapM_perm horder (runSlice e.backend e.weights c.contents c.cachedLen)
  refine ((hbatch.trans hperm).trans halone).mono (fun _ _ _ => trivial) ?_
  rintro ⟨logits, c₁⟩ ⟨logits', c₂⟩ ⟨rs', ⟨rs, ⟨y, hdone, hy, hlen, hcommitted⟩, hzip⟩, hy', hlen',
    hserved'⟩
  have hvalue : logits = rs.map (·.1) := hdone.value.trans hy
  subst hvalue hy'
  rw [hfull.layers.trans h.layers] at hcommitted
  have hpos : 0 < c.pool.numLayers := h.layers ▸ hfull.pos
  have hserved : Served c c.contents c.cachedLen (slices.zip (rs.map (·.2))) c₁ :=
    hdone.served hpos (List.map_fst_zip (by rw [List.length_map, hlen])) hcommitted
  have hfst := hzip.map (Prod.map id Prod.fst)
  have hsnd := hzip.map (Prod.map id Prod.snd)
  rw [← List.zip_map_right, ← List.zip_map_right] at hfst hsnd
  exact ⟨by rw [List.length_map, hlen], by rw [List.length_map, hlen'], hfst,
    hserved.sameContents hserved' hsnd⟩

/-- Where packing does not show, the logical passes agree too. -/
theorem Engine.PacksUnseen.logical (h : e.PacksUnseen) (hb : e.backend.Reliable) (hfull : e.Full)
    (hbatch : Packable e c slices) :
    Together (fun y rs => (slices.zip y.1).Perm (slices.zip (rs.map (·.1))))
      (runModel e.backend e.weights c.contents (placedBy c.cachedLen slices)
        (slices.flatMap (·.tokenIds)) (slices.flatMap (·.positions)))
      (slices.mapM (runSlice e.backend e.weights c.contents c.cachedLen)) := by
  have halone := runAlone_together hb hfull (hbatch.servesAll (.refl slices))
  refine (((hbatch.batched hb hfull).symm.trans (h c slices slices hbatch (.refl slices))).trans
    halone).mono (fun _ _ _ => trivial) ?_
  rintro y rs ⟨r', ⟨r, hdone, -, -, hzip, -⟩, hlogits, -⟩
  rwa [hdone.value, hlogits] at hzip

/-! ## Heads that do not fill a row -/

/-- A backend on rows of cells, with a number in each cell. A view reads the
cells one behind the other in rows of another width; a cell that was not
written has its own number in it. Attention returns the queries, and the
logits are the last cell of a row. -/
def cellBackend (hiddenSize : ℕ) : Backend (List ℕ) Unit ℕ where
  alloc n := .ok (List.replicate n [])
  view n m x := x.mapIdx fun row cells =>
    if n = m then cells
    else (List.range m).map fun col => (x.flatten[row * m + col]?).getD (row * m + col)
  embedding ids _ := .ok (ids.map (List.replicate hiddenSize))
  rmsnorm x _ _ := .ok x
  matmul x _ := .ok x
  rope q k _ _ _ := .ok (q, k)
  attention q _ _ _ _ := .ok q
  attentionPaged q _ _ _ _ _ _ := .ok q
  siluMul x _ := .ok x
  add := zipRows fun _ y => y
  copyRows src dst srcOff dstOff n :=
    if srcOff + n ≤ src.length ∧ dstOff + n ≤ dst.length then
      .ok (Rows.overwrite dst dstOff (Rows.window src srcOff n))
    else err (.invalidShape "copy_rows out of range")
  copyToHost x n := .ok (List.replicate n (x.flatten.getLast?.getD 0))

theorem cellBackend_reliable (hiddenSize : ℕ) : (cellBackend hiddenSize).Reliable where
  alloc_length h := by
    cases h
    exact List.length_replicate
  view_length n m x := List.length_mapIdx
  view_self n x := by
    refine List.ext_getElem List.length_mapIdx fun i hi hi' => ?_
    exact List.getElem_mapIdx.trans (if_pos rfl)
  embedding_length h := by
    cases h
    exact List.length_map _
  rmsnorm_length h := by cases h; rfl
  matmul_length h := by cases h; rfl
  rope_length h := by cases h; exact ⟨rfl, rfl⟩
  attentionPaged_length h := by cases h; rfl
  siluMul_length h := by cases h; rfl
  add_length h := zipRows_length h
  copyRows_eq {src dst srcOff dstOff n t} h := by
    simp only [cellBackend] at h
    split at h
    · next hin =>
      cases h
      exact ⟨hin.1, hin.2, rfl⟩
    · cases h
  copyToHost_length h := by
    cases h
    exact List.length_replicate
  attentionPaged_congr _ _ := rfl
  alloc_ok n := ⟨_, rfl⟩
  copyRows_ok hsrc hdst := ⟨_, if_pos ⟨hsrc, hdst⟩⟩

theorem cellBackend_rowWise (hiddenSize : ℕ) : (cellBackend hiddenSize).RowWise where
  embedding _ _ _ := .ok (List.map_append ..)
  rmsnorm _ _ _ _ := .ok rfl
  matmul _ _ _ := .ok rfl
  rope _ _ {_ _ _ _ _ _} _ _ _ _ := .ok ⟨rfl, rfl⟩
  siluMul _ _ := .ok rfl
  add := zipRows_split _

/-- A model of one layer on that backend. -/
def cellEngine (hiddenSize numQHeads : ℕ) : Engine (List ℕ) Unit ℕ where
  backend := cellBackend hiddenSize
  weights :=
    { config :=
        { hiddenSize, numLayers := 1, numQHeads, numKvHeads := 1,
          headDim := hiddenSize / numQHeads, intermediateSize := 1, vocabSize := 1, ropeTheta := 1,
          rmsNormEps := 1, maxSeqLen := 1 }
      tokenEmbedding := (), layers := [⟨(), (), (), (), (), (), (), (), ()⟩], outputNorm := (),
      lmHead := () }
  layerRange := ⟨0, 1⟩

section

variable {hiddenSize n m : ℕ} {x : List (List ℕ)}

/-- The rows of a view have its width. -/
theorem length_of_mem_view (hne : n ≠ m) :
    ∀ cells ∈ (cellBackend hiddenSize).view n m x, cells.length = m := by
  intro cells hcells
  obtain ⟨row, hrow, rfl⟩ := List.mem_mapIdx.1 hcells
  rw [if_neg hne, List.length_map, List.length_range]

/-- The last cell of the last row, when rows are read as wider ones, was not
written. -/
theorem getLast?_view (hlt : n < m) (hwidth : ∀ cells ∈ x, cells.length = n) {rows : ℕ}
    (hrows : x.length = rows + 1) :
    (Rows.window ((cellBackend hiddenSize).view n m x) rows 1).flatten.getLast? =
      some (rows * m + (m - 1)) := by
  have hlen : x.flatten.length = x.length * n := Rows.length_flatten_of_length_eq hwidth
  have hbehind : x.flatten.length ≤ rows * m + (m - 1) := by
    have hle : (rows + 1) * n ≤ (rows + 1) * (m - 1) := Nat.mul_le_mul_left _ (by omega)
    rw [hlen, hrows]
    rw [Nat.succ_mul _ (m - 1)] at hle
    have := Nat.mul_le_mul_left rows (Nat.sub_le m 1)
    omega
  have hview : (cellBackend hiddenSize).view n m x = x.mapIdx fun row _ => (List.range m).map
      fun col => (x.flatten[row * m + col]?).getD (row * m + col) := by
    simp only [cellBackend, if_neg (Nat.ne_of_lt hlt)]
  have hlast : rows < ((cellBackend hiddenSize).view n m x).length := by
    rw [hview, List.length_mapIdx]
    omega
  rw [Rows.window, List.drop_eq_getElem_cons hlast, List.take_succ_cons, List.take_zero,
    List.flatten_cons, List.flatten_nil, List.append_nil]
  simp only [hview, List.getElem_mapIdx, List.getLast?_map, List.getLast?_range]
  rw [if_neg (by omega), Option.map_some, List.getElem?_eq_none hbehind]
  rfl

end

/-- Two sequences of one token each. -/
def oneEach : List SequenceSlice := [⟨0, [0], [0]⟩, ⟨1, [0], [0]⟩]

/-- An empty cache of one layer. -/
def oneLayer : PagedKvCacheManager (List ℕ) where
  pool := {
    blocks := fun kv _ _ => kv.pick (List.replicate blockSize []) (List.replicate blockSize [])
    freeList := [0, 1], capacity := 2, numLayers := 1, numKvHeads := 1, headDim := 1 }
  sequences := ∅
  nextId := 0

theorem oneLayer_fitting : oneLayer.Fitting := by
  have hnew : PagedKvCacheManager.new (fun _ _ => .ok (List.replicate blockSize [],
      List.replicate blockSize [])) 2 1 1 1 = .ok oneLayer := rfl
  refine .of_new (fun h => ?_) hnew
  cases h
  exact ⟨List.length_replicate, List.length_replicate⟩

theorem packable_oneEach (hiddenSize numQHeads : ℕ) :
    Packable (cellEngine hiddenSize numQHeads) (state (alloc (state (alloc oneLayer)))) oneEach where
  nonempty := by decide
  nodup := by decide
  positions := by decide
  fitting := oneLayer_fitting.alloc.alloc
  layers := rfl
  tokens := by decide
  inRange := (by decide : ∀ s ∈ oneEach, ∀ p ∈ s.positions, p < 1)
  live := by decide +kernel
  free := by decide +kernel

section

variable {hiddenSize numQHeads : ℕ} (hlt : numQHeads * (hiddenSize / numQHeads) < hiddenSize)
include hlt

/-- The last row of a pass ends in the cell behind all others. -/
theorem getLast_heads {rows : ℕ} {x : List (List ℕ)} (hx : x.length = rows + 1) :
    (Rows.window ((cellBackend hiddenSize).view (numQHeads * (hiddenSize / numQHeads)) hiddenSize
      ((cellBackend hiddenSize).view hiddenSize (numQHeads * (hiddenSize / numQHeads)) x))
      rows 1).flatten.getLast?.getD 0 = rows * hiddenSize + (hiddenSize - 1) := by
  rw [getLast?_view hlt (length_of_mem_view hlt.ne')
    (((cellBackend_reliable hiddenSize).view_length _ _ x).trans hx)]
  rfl

variable (L : Logical (List ℕ)) (len : CacheHandle → ℕ)

theorem runModel_oneEach : ∃ first packed,
    runModel (cellEngine hiddenSize numQHeads).backend (cellEngine hiddenSize numQHeads).weights L
      (placedBy len oneEach) (oneEach.flatMap (·.tokenIds)) (oneEach.flatMap (·.positions)) =
      .ok ([first, [1 * hiddenSize + (hiddenSize - 1)]], packed) := by
  rw [← getLast_heads hlt (show [List.replicate hiddenSize 0, _].length = 1 + 1 from rfl)]
  exact ⟨_, _, rfl⟩

theorem mapM_runSlice_oneEach : ∃ r packed,
    oneEach.mapM (runSlice (cellEngine hiddenSize numQHeads).backend
      (cellEngine hiddenSize numQHeads).weights L len) =
      .ok [r, ([0 * hiddenSize + (hiddenSize - 1)], packed)] := by
  rw [← getLast_heads hlt (show [List.replicate hiddenSize 0].length = 0 + 1 from rfl)]
  exact ⟨_, _, rfl⟩

end

/-- **Packing does not show in models of a shape**, whatever their backend
and weights, exactly if the heads of a query fill its row. -/
theorem packing_unseen_iff (hiddenSize numQHeads : ℕ) :
    (∀ {R W F : Type} (e : Engine R W F), e.backend.Reliable → e.backend.RowWise → e.Full →
      e.config.hiddenSize = hiddenSize → e.config.numQHeads = numQHeads →
      e.config.headDim = hiddenSize / numQHeads → e.PacksUnseen) ↔ numQHeads ∣ hiddenSize := by
  constructor
  · intro hall
    by_contra hndvd
    have hlt : numQHeads * (hiddenSize / numQHeads) < hiddenSize :=
      lt_of_le_of_ne (Nat.mul_div_le _ _) fun heq => hndvd ⟨_, heq.symm⟩
    have hb := cellBackend_reliable hiddenSize
    have hfull : (cellEngine hiddenSize numQHeads).Full := ⟨rfl, rfl, rfl, Nat.one_pos⟩
    have hunseen : (cellEngine hiddenSize numQHeads).PacksUnseen :=
      hall _ hb (cellBackend_rowWise hiddenSize) hfull rfl rfl rfl
    have hlogical := hunseen.logical hb hfull (packable_oneEach hiddenSize numQHeads)
    obtain ⟨first, packed, hbatch⟩ := runModel_oneEach hlt _ _
    obtain ⟨r, packed', halone⟩ := mapM_runSlice_oneEach hlt _ _
    rw [hbatch, halone] at hlogical
    cases hlogical with
    | ok hperm =>
      -- Both give the second sequence a single cell, and not the same one.
      obtain ⟨⟨-⟩, -⟩ | hsame := List.mem_pair.1
        (hperm.subset (List.mem_cons_of_mem _ (List.mem_singleton_self _)))
      simp only [Prod.mk.injEq, List.cons.injEq] at hsame
      omega
  · intro hdvd R W F e hb hrow hfull hhidden hheads hdim
    refine e.packsUnseen hb hrow hfull ?_
    rw [hhidden, hheads, hdim, Nat.mul_div_cancel' hdvd]

/-- Two heads of two cells fill a row of four. -/
theorem packing_unseen_twoHeads :
    Packable (cellEngine 4 2) (state (alloc (state (alloc oneLayer)))) oneEach ∧
      (cellEngine 4 2).PacksUnseen :=
  ⟨packable_oneEach 4 2, (packing_unseen_iff 4 2).2 (by decide) _ (cellBackend_reliable 4)
    (cellBackend_rowWise 4) ⟨rfl, rfl, rfl, Nat.one_pos⟩ rfl rfl rfl⟩

/-- Two heads of two cells do not fill a row of five, and packing shows. -/
theorem packing_seen :
    Packable (cellEngine 5 2) (state (alloc (state (alloc oneLayer)))) oneEach ∧
      (outcome (batchedForward (cellBackend 5) (cellEngine 5 2).weights ⟨0, 1⟩ oneEach
        (state (alloc (state (alloc oneLayer)))))).map (·.1) = .ok [[0], [9]] ∧
      (outcome ((cellEngine 5 2).runAlone oneEach
        (state (alloc (state (alloc oneLayer)))))).map (·.1) = .ok [[4], [4]] :=
  ⟨packable_oneEach 5 2, by decide +kernel, by decide +kernel⟩

end Fracture
