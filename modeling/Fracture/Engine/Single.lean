import Fracture.Engine.Forward

/-!
# The forward pass of one sequence on the paged cache

A sequence that runs alone is a batch of one: it owns every row, so
nothing is sliced, copied or gathered. The pass over the paged cache
gives what the logical pass gives for that batch.
-/

namespace Fracture

open Effect Rows PagedKvCacheManager

variable {R W F : Type} {c : PagedKvCacheManager R} {L : Logical R}

/-! ## A batch of one -/

/-- A sequence that has the whole batch to itself. -/
def Placed.whole (handle : CacheHandle) (n startPos : ℕ) : Placed :=
  { handle, start := 0, stop := n, startPos }

section Whole

variable {b : Backend R W F} {h : CacheHandle} {n startPos : ℕ}

theorem Placed.count_whole : (Placed.whole h n startPos).count = n := rfl

theorem Placed.rows_whole {x : List R} (hx : x.length = n) :
    (Placed.whole h n startPos).rows x = x := by
  subst hx
  exact window_zero_length x

theorem tiles_whole : Tiles 0 [Placed.whole h n startPos] n := ⟨rfl, Nat.zero_le _, rfl⟩

theorem placedBy_singleton (len : CacheHandle → ℕ) (s : SequenceSlice) :
    placedBy len [s] = [Placed.whole s.handle s.tokenIds.length (len s.handle)] := by
  simp [placedBy, place, Placed.whole]

theorem Logical.appendLayer_whole (L : Logical R) (l : ℕ) {packed : Kv → List R}
    (hlen : ∀ kv, (packed kv).length = n) :
    L.appendLayer l [Placed.whole h n startPos] packed = L.append h l packed := by
  rw [← Logical.appendLayer_cons L l (by simp), Logical.appendLayer_nil]
  congr 1
  funext kv
  exact Placed.rows_whole (hlen kv)

theorem blocksOn_whole (l : ℕ) : blocksOn l [Placed.whole h n startPos] =
    if l = 0 then blocksFor (startPos + n) - blocksFor startPos else 0 := by
  rw [blocksOn, List.map_singleton, List.sum_singleton, Placed.newBlocks, Placed.count_whole]
  rfl

/-- A layer of a batch of one has one attention call, on all the rows. -/
theorem runLayer_whole (hb : b.Sound) (cfg : ModelConfig) (past : Logical R) (positions : List ℕ)
    (w : LayerWeights W) (l : ℕ) {x : List R} (hx : x.length = n) :
    runLayer b cfg past [Placed.whole h n startPos] positions w l x = (do
      let (q, k, v) ← qkv b cfg w positions x
      let attnOut ← attendRows b cfg.numKvHeads q fun kv => past h l kv ++ Kv.pick k v kv
      let x ← finishLayer b cfg w x attnOut
      return (x, Kv.pick k v)) := by
  unfold runLayer
  cases hqkv : qkv b cfg w positions x with
  | error e => rfl
  | ok r =>
    obtain ⟨q, k, v⟩ := r
    obtain ⟨hq, hk, hv⟩ := length_qkv hb hqkv
    have hrows : (fun kv => past h l kv ++ (Placed.whole h n startPos).rows (Kv.pick k v kv)) =
        fun kv => past h l kv ++ Kv.pick k v kv := by
      funext kv
      rw [Placed.rows_whole]
      cases kv
      · exact hk.trans hx
      · exact hv.trans hx
    rw [except_ok_bind, except_ok_bind]
    dsimp only
    unfold attendPlaced
    rw [List.mapM_cons, List.mapM_nil, Placed.rows_whole (hq.trans hx)]
    change (((attendRows b cfg.numKvHeads q fun kv =>
      past h l kv ++ (Placed.whole h n startPos).rows (Kv.pick k v kv)) >>= _) >>= _) >>= _ = _
    rw [hrows]
    cases attendRows b cfg.numKvHeads q fun kv => past h l kv ++ Kv.pick k v kv with
    | error e => rfl
    | ok a => simp [pure, Except.pure]

end Whole

/-! ## The paged layers -/

variable {e : Engine R W F} {h : CacheHandle} {n startPos : ℕ} {x : List R}

section

variable (hb : e.backend.Reliable) (positions : List ℕ) (hx : x.length = n)
include hb hx

/-- **One layer of a sequence on the paged cache is one layer on the
logical cache.** -/
theorem pagedLayer_related {l : ℕ} (hc : ReadyFor c L [Placed.whole h n startPos] l)
    {past : Logical R} (hpast : past h l = L h l) (w : LayerWeights W) :
    Related Eq (fun r y => r.1 = y.1 ∧ r.1.length = n ∧ (∀ kv, (y.2 kv).length = n) ∧
        AppendedTo c L [Placed.whole h n startPos] l y.2 r.2)
      (outcome (e.pagedLayer w positions h l startPos n x c))
      (runLayer e.backend e.config past [Placed.whole h n startPos] positions w l x) := by
  rw [runLayer_whole hb.toSound e.config past positions w l hx]
  unfold Engine.pagedLayer
  rw [outcome_lift_bind]
  refine .bind_same (fun _ => rfl) fun ⟨q, k, v⟩ hqkv => ?_
  obtain ⟨hq, hk, hv⟩ := length_qkv hb.toSound hqkv
  have hp : Placed.whole h n startPos ∈ [Placed.whole h n startPos] := List.mem_singleton_self _
  have hlive : c.lenOf h = some (if l = 0 then startPos else startPos + n) := hc.live _ hp
  have hrows : ∀ kv, (L h l kv).length = startPos := hc.rows _ hp
  have hfree := hc.free
  rw [blocksOn_whole] at hfree
  have hbefore : c.lenOf h = some (if l = 0 then startPos else startPos + k.length) := by
    rw [hlive, hk, hx]
  obtain ⟨c', hok, hviews, hlen', hmoves⟩ := hc.toViews.append hb hc.layer (hv.trans hk.symm)
    hbefore hrows (fun hzero => by rwa [if_pos hzero, ← hx, ← hk] at hfree)
  have hpicked : ∀ kv, (Kv.pick k v kv).length = n := by
    rintro ⟨⟩
    · exact hk.trans hx
    · exact hv.trans hx
  rw [hk, hx] at hlen' hmoves
  have hdone : AppendedTo c L [Placed.whole h n startPos] l (Kv.pick k v) c' := by
    refine ⟨L.appendLayer_whole l hpicked ▸ hviews, fun p hp => ?_, ?_⟩
    · rw [List.mem_singleton.1 hp]
      exact hlen'
    · rw [blocksOn_whole]
      exact hmoves
  have hlen : ∀ kv, (L.append h l (Kv.pick k v) h l kv).length = startPos + q.length := fun kv => by
    rw [Logical.append_self, List.length_append, hrows, hpicked, hq, hx]
  have hattn := dispatchAttention_eq hb.toSound hviews hlen' (hmoves.numLayers ▸ hc.layer) hlen
    e.config.numKvHeads
  rw [hq, hx, Logical.append_self, ← hpast] at hattn
  rw [outcome_bind]
  refine .bind_left (by rw [show PagedCache.appendKv e.backend h l k v c = _ from hok]; rfl) ?_
  rw [outcome_get_bind, outcome_lift_bind]
  change Related Eq _ (c'.dispatchAttention e.backend q h l e.config.numKvHeads (startPos + n)
    startPos >>= _) _
  rw [hattn]
  refine .bind_same (fun _ => rfl) fun attnOut _ => ?_
  rw [outcome_lift]
  refine .bind_same (fun _ => rfl) fun y hy => ?_
  exact .ok ⟨rfl, (length_finishLayer hb.toSound hy).trans hx, hpicked, hdone⟩

/-- The layer loop of a sequence, over the layers its engine has loaded. -/
theorem pagedLayers_related (hlayers : e.weights.layers.length ≤ c.pool.numLayers) (hc : c.Views L)
    (hrows : ∀ l < c.pool.numLayers, ∀ kv, (L h l kv).length = startPos)
    (hlive : c.lenOf h = some startPos)
    (hfree : blocksFor (startPos + n) - blocksFor startPos ≤ c.numFreeBlocks) :
    Related Eq
      (fun r y => r.1 = y.1 ∧ r.1.length = n ∧
        MidBatch c L [Placed.whole h n startPos] n y.2 r.2)
      (outcome (e.pagedLayers positions h e.layerRange.start startPos n
        (List.range' e.layerRange.start e.weights.layers.length) x c))
      (runLayers e.backend e.config L [Placed.whole h n startPos] positions e.weights.layers 0 x) := by
  have hmem : ∀ p ∈ [Placed.whole h n startPos], p = Placed.whole h n startPos := fun p hp =>
    List.mem_singleton.1 hp
  have hstart : x.length = n ∧ MidBatch c L [Placed.whole h n startPos] n [] c :=
    ⟨hx, MidBatch.start hc fun p hp => hmem p hp ▸ hlive⟩
  have hloop := layerLoop_related e.backend L e.config [Placed.whole h n startPos] positions
    e.weights.layers e.layerRange.start (id : List R → List R)
    (fun done x c' => x.length = n ∧ MidBatch c L [Placed.whole h n startPos] n done c')
    (fun i x => do
      let weightIdx ← checkedSub i e.layerRange.start
      let w ← index e.weights.layers weightIdx
      e.pagedLayer w positions h (i - e.layerRange.start) startPos n x)
    (fun is x => e.pagedLayers positions h e.layerRange.start startPos n is x)
    (fun _ => rfl) (fun i is x => by simp only [Engine.pagedLayers, bind_assoc])
    (fun {done x c' w} ⟨hx', hmid⟩ hw => ?_) [] rfl hstart
  · refine hloop.mono (fun _ _ h => h) ?_
    rintro r y ⟨heq, x', hx', hlen, hmid⟩
    exact ⟨heq, hx' ▸ hlen, hmid⟩
  · have hl : done.length < c.pool.numLayers := by
      have := (List.getElem?_eq_some_iff.1 hw).1
      omega
    have hready := hmid.ready (by simp) (fun p hp => hmem p hp ▸ hrows _ hl)
      (by rw [blocksOn_whole, if_pos rfl]; exact hfree) hl
    rw [Nat.add_sub_cancel_left, outcome_lift_bind,
      checkedSub_eq_ok.2 ⟨Nat.le_add_right _ _, rfl⟩, except_ok_bind, Nat.add_sub_cancel_left,
      outcome_lift_bind, index_eq_ok.2 hw, except_ok_bind]
    refine (pagedLayer_related hb positions hx' hready (Logical.commit_of_le L _ le_rfl h).symm
      w).mono (fun _ _ h => h) ?_
    rintro r y ⟨hidden, hlen, hlens, hdone⟩
    exact ⟨hidden, hlen, hmid.append hlens hdone⟩

end

/-! ## A full engine -/

/-- An engine that has loaded the whole model. -/
structure Engine.Full (e : Engine R W F) : Prop where
  start : e.layerRange.start = 0
  stop : e.layerRange.stop = e.config.numLayers
  layers : e.weights.layers.length = e.config.numLayers
  pos : 0 < e.config.numLayers

theorem Engine.checkPositions_ok {positions : List ℕ}
    (hpos : ∀ p ∈ positions, p < e.config.maxSeqLen) : e.checkPositions positions = .ok () := by
  unfold Engine.checkPositions
  cases hmax : positions.max? with
  | none => rfl
  | some maxPos =>
    have := hpos maxPos (List.max?_mem hmax)
    exact if_neg (by omega)

/-- The last row of a sequence that runs alone. -/
theorem lastRow_eq (hb : e.backend.Reliable) {normed : List R} (hlen : normed.length = n)
    (hn : 0 < n) : Engine.lastRow e.backend normed n = .ok (window normed (n - 1) 1) := by
  unfold Engine.lastRow
  by_cases hmany : n > 1
  · rw [if_pos hmany, extractRow_eq hb (by omega)]
  · have hone : n = 1 := by omega
    subst hone
    rw [if_neg hmany]
    exact congrArg Except.ok (hlen ▸ window_zero_length normed).symm

/-- The output phase of a sequence that runs alone through the whole
model, against the projection of the batch of it. -/
theorem nodeOutput_eq (hb : e.backend.Reliable) {nodeConfig : NodeConfig}
    (htail : nodeConfig.isTail = true) (width : ℕ) (hx : x.length = n) (hn : 0 < n) :
    Related Eq (fun out logits => ∃ values, out = .logits values ∧ logits = [values])
      (e.nodeOutput nodeConfig width n x)
      (runOutput e.backend e.weights [Placed.whole h n startPos] x) := by
  unfold Engine.nodeOutput runOutput
  rw [if_pos htail]
  refine .bind_same (fun _ => rfl) fun normed hnormed => ?_
  have hlen : normed.length = n := (hb.rmsnorm_length hnormed).trans hx
  rw [lastRow_eq hb hlen hn, except_ok_bind, projectEnds, List.mapM_cons, List.mapM_nil,
    show checkedSub (Placed.whole h n startPos).stop 1 = .ok (n - 1) from
      checkedSub_eq_ok.2 ⟨hn, rfl⟩, except_ok_bind]
  exact .bind_same (fun _ => rfl) fun values _ => .ok ⟨values, rfl, rfl⟩

/-- **A sequence that runs alone through the whole model on the paged
cache gives what the logical pass gives for the batch of it.** -/
theorem forwardPaged_related (hb : e.backend.Reliable) (hfull : e.Full) {len : CacheHandle → ℕ}
    {s : SequenceSlice} (hserve : Servable c L len [s])
    (hlayers : e.config.numLayers = c.pool.numLayers) (htokens : s.tokenIds ≠ [])
    (hpositions : ∀ p ∈ s.positions, p < e.config.maxSeqLen) :
    Related Eq
      (fun r y => CallDone c L (placedBy len [s]) ([r.1], r.2) y)
      (outcome (e.forwardPaged s.tokenIds s.positions s.handle c))
      (runModel e.backend e.weights L (placedBy len [s]) s.tokenIds s.positions) := by
  have hs : s ∈ [s] := List.mem_singleton_self s
  have hn : 0 < s.tokenIds.length := List.length_pos_iff.2 htokens
  have hbatch : batchTokens [s] = s.tokenIds.length := by simp [batchTokens]
  have hloaded : e.weights.layers.length = c.pool.numLayers := hfull.layers.trans hlayers
  have hrange : e.layerRange.layers =
      List.range' e.layerRange.start e.weights.layers.length := by
    rw [LayerRange.layers, hfull.stop, hfull.start, hfull.layers, Nat.sub_zero]
  obtain ⟨nodeConfig, hnew, hhead, htail, hconfig⟩ : ∃ nodeConfig,
      NodeConfig.new e.layerRange e.config.numLayers = .ok nodeConfig ∧
        nodeConfig.isHead = true ∧ nodeConfig.isTail = true ∧
        nodeConfig.layerRange = e.layerRange := by
    have hstart := hfull.start
    have hstop := hfull.stop
    have hpos := hfull.pos
    refine ⟨⟨e.layerRange, e.config.numLayers, by omega, by omega⟩, ?_, ?_, ?_, rfl⟩
    · rw [NodeConfig.new, dif_pos (by omega), dif_pos (by omega)]
    · simp [NodeConfig.isHead, hstart]
    · simp [NodeConfig.isTail, hstop]
  have hplaced := placedBy_singleton len s
  have hfree := hserve.free
  rw [hplaced, blocksOn_whole, if_pos rfl] at hfree
  unfold Engine.forwardPaged
  rw [outcome_lift_bind, hnew, except_ok_bind, outcome_bind]
  refine Related.then_left (Q := fun r y => ∃ values, r.1 = .logits values ∧
    CallDone c L (placedBy len [s]) ([values], r.2) y) ?_ ?_
  · unfold Engine.forwardNodePaged Engine.resolveInput runModel
    rw [outcome_lift_bind]
    dsimp only
    rw [if_neg (by simp [hhead]), if_neg (by simpa using htokens), bind_assoc]
    refine .bind_same (fun _ => rfl) fun x hx => ?_
    have hxlen := hb.embedding_length hx
    rw [pure_bind]
    rw [outcome_lift_bind, e.checkPositions_ok hpositions, except_ok_bind, outcome_get_bind,
      outcome_lift_bind]
    refine .bind_left (seqLen_eq_ok.2 (hserve.live s hs)) ?_
    rw [outcome_bind, hconfig, hrange, hplaced]
    refine (pagedLayers_related hb s.positions hxlen hloaded.le hserve.toViews
      (fun l hl => hserve.level (hserve.live s hs) hl) (hserve.live s hs) hfree).with_right.bind ?_
    rintro ⟨x', c'⟩ ⟨y, packed⟩ ⟨⟨rfl, hlen, hmid⟩, hok⟩
    rw [outcome_lift]
    refine (nodeOutput_eq hb htail e.config.hiddenSize hlen hn).bind ?_
    rintro out logits ⟨values, rfl, rfl⟩
    refine .ok ⟨values, rfl, ?_⟩
    rw [← hplaced] at hmid ⊢
    exact hserve.callDone (hbatch ▸ hmid) ((length_runLayers hok).trans hloaded) [values]
  · rintro ⟨out, c'⟩ y ⟨values, rfl, hdone⟩
    exact ⟨(values, c'), rfl, hdone⟩

end Fracture
