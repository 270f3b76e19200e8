import Fracture.Engine.Hosts
import Fracture.Engine.Reference
import Fracture.PagedCache.Contents

/-!
# A model in stages

A chain of hosts, each with a range of the layers and a cache of its own,
serves every history of batches with the logits of one host that has the
whole model. All hosts keep one logical cache between them: what a stage
has cached for a sequence are the rows of its layers there, under
whatever handle the stage gave the sequence.
-/

namespace Fracture

open Effect Rows PagedKvCacheManager

variable {R W F : Type} {b : Backend R W F}

theorem runLayers_shift {cfg : ModelConfig} (L : Logical R) (n : ℕ) (placed : List Placed)
    (positions : List ℕ) (ws : List (LayerWeights W)) (l : ℕ) (x : List R) :
    runLayers b cfg (L.shift n) placed positions ws l x =
      runLayers b cfg L placed positions ws (n + l) x := by
  have hid : placed.map (Placed.rename id) = placed := List.map_id placed
  have hrows : ∀ p ∈ placed, ∀ i < ws.length, L.shift n (id p.handle) (l + i) =
      L p.handle (n + l + i) := fun p _ i _ => by
    rw [Logical.shift, Nat.add_assoc]
    rfl
  rw [← runLayers_rename id ws hrows, hid]

variable {L : Logical R} {len : ℕ → ℕ} {k : ℕ} {requests : List SequenceRequest}

/-- **A batch through the node of a host** that shows the node's layers. -/
theorem HostedCache.Shows.batchedForwardNode (hb : b.Reliable) {host : HostedCache R}
    (hshows : host.Shows L len k) (hadmits : host.Admits (.forward requests))
    (weights : WeightStore W) (hlayers : weights.layers.length = k) (nodeConfig : NodeConfig)
    (hrange : nodeConfig.layerRange.len = k) (withTokens : Bool) (input : Option (Activations R)) :
    Related Eq
      (fun r y => r.1 = y.1 ∧
        { host with cache := r.2 }.Shows (L.commit (placedIds len requests) y.2)
          (lenAfter len (placedIds len requests)) k)
      (outcome (Fracture.batchedForwardNode b weights nodeConfig
        (requests.map (host.slice withTokens)) input host.cache))
      (batchedInput b weights nodeConfig (requests.map (host.slice withTokens))
          (requests.flatMap (·.positions)).length input >>=
        runNode b weights L (placedIds len requests) (requests.flatMap (·.positions))
          nodeConfig) := by
  obtain ⟨L₀, hrep, hagree⟩ := hshows.contents
  have hk : 0 < k := hrange ▸ Nat.sub_pos_of_lt nodeConfig.nonempty
  have hknown : ∀ r ∈ requests, r.seqId ∈ host.handles := fun r hr => (hadmits.2.2.1 r hr).1
  have hmap : (requests.map (host.slice withTokens)).map SequenceSlice.byPositions =
      requests.map fun r => (host.slice withTokens r).byPositions := by
    rw [List.map_map]
    rfl
  have hserve := hshows.servable (cuts_byPositions withTokens) hadmits hrep
  rw [← hmap] at hserve
  have hnode := batchedForwardNode_related hb hserve weights (hlayers.trans hshows.layers.symm)
    nodeConfig (hrange.trans hlayers.symm) input
  rw [flatMap_positions_slice, hmap, hshows.placedBy_eq (cuts_byPositions withTokens) hknown]
    at hnode
  have hrun : runNode b weights L₀ ((placedIds len requests).map (Placed.rename host.handleOf))
      (requests.flatMap (·.positions)) nodeConfig =
      runNode b weights L (placedIds len requests) (requests.flatMap (·.positions)) nodeConfig := by
    funext hiddenState
    unfold runNode
    rw [runLayers_rename host.handleOf weights.layers (hlayers ▸ agree_placedIds hknown hagree)]
    simp only [runOutput_rename]
  rw [hrun] at hnode
  refine hnode.mono (fun _ _ h => h) ?_
  rintro ⟨output, c'⟩ ⟨output', packed⟩ hdone
  exact ⟨hdone.value, hshows.after hk hadmits hagree hdone⟩

/-! ## The chain -/

/-- The stage has its part of the model's layers, from `first` on; the
first stage can embed as the model does, the last project. -/
structure Stage.Loads (s : Stage R W) (model : WeightStore W) (first : ℕ) : Prop where
  start : s.nodeConfig.layerRange.start = first
  total : s.nodeConfig.totalLayers = model.layers.length
  config : s.weights.config = model.config
  layers : s.weights.layers = window model.layers first s.nodeConfig.layerRange.len
  embedding : s.nodeConfig.isHead → s.weights.tokenEmbedding = model.tokenEmbedding
  outputNorm : s.nodeConfig.isTail → s.weights.outputNorm = model.outputNorm
  lmHead : s.nodeConfig.isTail → s.weights.lmHead = model.lmHead

/-- The stages have the model's layers from `first` on, one stretch
behind the other. -/
def Partitioned (model : WeightStore W) : ℕ → List (Stage R W) → Prop
  | first, [] => first = model.layers.length
  | first, s :: rest => s.Loads model first ∧ Partitioned model s.nodeConfig.layerRange.stop rest

/-- The hosts of the stages show one logical cache between them, each
from its own first layer on. -/
def ChainShows (L : Logical R) (len : ℕ → ℕ) : List (Stage R W) → Prop
  | [] => True
  | s :: rest => s.host.Shows L len s.nodeConfig.layerRange.len ∧
      ChainShows (L.shift s.nodeConfig.layerRange.len) len rest

section Chain

variable {model : WeightStore W} {s : Stage R W} {rest stages : List (Stage R W)} {first : ℕ}
  {L : Logical R} {len : ℕ → ℕ} {requests : List SequenceRequest}

theorem Stage.Loads.stop_eq (h : s.Loads model first) :
    s.nodeConfig.layerRange.stop = first + s.nodeConfig.layerRange.len := by
  have := s.nodeConfig.nonempty
  have := h.start
  rw [LayerRange.len]
  omega

theorem Stage.Loads.length_layers (h : s.Loads model first) :
    s.weights.layers.length = s.nodeConfig.layerRange.len := by
  have hbound := s.nodeConfig.bounded
  rw [h.total, h.stop_eq] at hbound
  rw [h.layers, length_window hbound]

/-- A stage's layers and the stages' behind it. -/
theorem Stage.Loads.drop_eq (h : s.Loads model first) : model.layers.drop first =
    s.weights.layers ++ model.layers.drop s.nodeConfig.layerRange.stop := by
  rw [h.layers, window, h.stop_eq, ← List.drop_drop, List.take_append_drop]

/-- The last stage is the one with the last layers. -/
theorem Partitioned.isTail_iff (h : Partitioned model first (s :: rest)) :
    s.nodeConfig.isTail = true ↔ rest = [] := by
  obtain ⟨hload, hrest⟩ := h
  rw [NodeConfig.isTail, beq_iff_eq, hload.total]
  cases rest with
  | nil => exact ⟨fun _ => rfl, fun _ => hrest⟩
  | cons s' rest =>
    have hstart := hrest.1.start
    have htotal := hrest.1.total
    have hne := s'.nodeConfig.nonempty
    have hbound := s'.nodeConfig.bounded
    refine ⟨fun hstop => ?_, fun hnil => absurd hnil (List.cons_ne_nil _ _)⟩
    omega

theorem runOutput_eq {weights weights' : WeightStore W} (hconfig : weights.config = weights'.config)
    (hnorm : weights.outputNorm = weights'.outputNorm) (hhead : weights.lmHead = weights'.lmHead)
    (placed : List Placed) (x : List R) :
    runOutput b weights placed x = runOutput b weights' placed x := by
  simp only [runOutput, projectEnds, projectRow, hconfig, hnorm, hhead]

/-- The layers from `first` on and the output, for one hidden state. -/
def runRest (b : Backend R W F) (model : WeightStore W) (L : Logical R) (placed : List Placed)
    (positions : List ℕ) (first : ℕ) (x : List R) :
    Except Fault (List (List F) × List (Kv → List R)) := do
  let (y, packed) ← runLayers b model.config L placed positions (model.layers.drop first) 0 x
  let logits ← runOutput b model placed y
  return (logits, packed)

/-- The rest of the model is a stage and the rest behind it. -/
theorem runRest_eq (hload : s.Loads model first) (placed : List Placed) (positions : List ℕ)
    (x : List R) :
    runRest b model L placed positions first x = (do
      let (y, packed₁) ← runLayers b model.config L placed positions s.weights.layers 0 x
      let (logits, packed₂) ← runRest b model (L.shift s.nodeConfig.layerRange.len) placed positions
        s.nodeConfig.layerRange.stop y
      return (logits, packed₁ ++ packed₂)) := by
  unfold runRest
  rw [hload.drop_eq, runLayers_append]
  simp only [runLayers_shift, hload.length_layers, Nat.zero_add, Nat.add_zero, bind_assoc,
    pure_bind]

variable {input : Option (Activations R)}

/-- **A batch through one stage.** -/
theorem Stage.batchedForward_related (hb : b.Reliable) (hload : s.Loads model first)
    (hshow : s.host.Shows L len s.nodeConfig.layerRange.len)
    (hallowed : s.host.Admits (.forward requests)) {hiddenState : Activations R}
    (hinput : batchedInput b s.weights s.nodeConfig (requests.map (s.host.slice input.isNone))
      (requests.flatMap (·.positions)).length input = .ok hiddenState) :
    Related Eq
      (fun r y => r.1 = y.1 ∧ ∃ c', r.2 = { s with host := { s.host with cache := c' } } ∧
        r.2.host.Shows (L.commit (placedIds len requests) y.2)
          (lenAfter len (placedIds len requests)) s.nodeConfig.layerRange.len)
      (s.batchedForward b requests input)
      (runNode b s.weights L (placedIds len requests) (requests.flatMap (·.positions))
        s.nodeConfig hiddenState) := by
  have hnode := hshow.batchedForwardNode hb hallowed s.weights hload.length_layers s.nodeConfig rfl
    input.isNone input
  rw [hinput, except_ok_bind] at hnode
  have hslices := HostedCache.slices_eq (fun r hr => (hallowed.2.2.1 r hr).1) input.isNone
  unfold Stage.batchedForward
  rw [hslices, except_ok_bind]
  refine hnode.then_left ?_
  rintro ⟨output, c'⟩ y ⟨heq, hshow'⟩
  exact ⟨_, rfl, heq, c', rfl, hshow'⟩

theorem Stage.Loads.onCache (h : s.Loads model first) (c' : PagedKvCacheManager R) :
    Stage.Loads { s with host := { s.host with cache := c' } } model first :=
  ⟨h.start, h.total, h.config, h.layers, h.embedding, h.outputNorm, h.lmHead⟩

variable {len' : ℕ → ℕ}

/-- What a stage shows after its own layers it shows after all of them. -/
theorem shows_commit_append {host : HostedCache R} {placed : List Placed}
    {packed₁ : List (Kv → List R)}
    (hshows : host.Shows (L.commit placed packed₁) len' packed₁.length)
    (packed₂ : List (Kv → List R)) :
    host.Shows (L.commit placed (packed₁ ++ packed₂)) len' packed₁.length := by
  refine hshows.congr fun id l hl => ?_
  funext kv
  rw [Logical.commit, Logical.commit, List.getElem?_append_left hl]

/-- A later stage is sent the rows and the width it expects. -/
theorem batchedInput_some (hload : s.Loads model first) (hfirst : 0 < first)
    (sequences : List SequenceSlice) {y : List R} {total : ℕ} (hy : y.length = total) :
    batchedInput b s.weights s.nodeConfig sequences total
      (some ⟨y, model.config.hiddenSize⟩) = .ok ⟨y, model.config.hiddenSize⟩ := by
  have hhead : s.nodeConfig.isHead = false := by
    rw [NodeConfig.isHead, hload.start, beq_eq_false_iff_ne]
    omega
  rw [batchedInput, if_neg (by rw [hhead]; decide)]
  exact if_neg (by rw [hload.config]; simp [hy])

section

variable (hpart : Partitioned model first stages) (hshows : ChainShows L len stages)
include hpart hshows

/-- **A batch through the stages is the batch through their layers.** -/
theorem chainForward_related (hb : b.Reliable) (hne : stages ≠ [])
    (hadmits : ∀ s ∈ stages, s.host.Admits (.forward requests)) {x : List R}
    (hx : x.length = (requests.flatMap (·.positions)).length)
    (hinput : ∀ s ∈ stages.head?, batchedInput b s.weights s.nodeConfig (requests.map (s.host.slice
      input.isNone)) (requests.flatMap (·.positions)).length input = .ok ⟨x,
      model.config.hiddenSize⟩) :
    Related Eq
      (fun r y => r.1 = y.1 ∧ Partitioned model first r.2 ∧
        ChainShows (L.commit (placedIds len requests) y.2) (lenAfter len (placedIds len requests))
          r.2)
      (chainForward b requests stages input)
      (runRest b model L (placedIds len requests) (requests.flatMap (·.positions)) first x) := by
  induction stages generalizing first L input x with
  | nil => exact absurd rfl hne
  | cons s rest ih =>
    have htail := hpart.isTail_iff
    obtain ⟨hload, hrest⟩ := hpart
    obtain ⟨hshow, hshows⟩ := hshows
    have hstage := Stage.batchedForward_related hb hload hshow (hadmits s List.mem_cons_self)
      (hinput s rfl)
    unfold runNode at hstage
    rw [hload.config] at hstage
    rw [runRest_eq hload]
    unfold chainForward
    cases hlayers : runLayers b model.config L (placedIds len requests)
        (requests.flatMap (·.positions)) s.weights.layers 0 x with
    | error e =>
      rw [hlayers, except_error_bind] at hstage
      rw [hstage.error_right, except_error_bind]
      exact .error rfl
    | ok result =>
      obtain ⟨y, packed₁⟩ := result
      have hlen₁ : packed₁.length = s.nodeConfig.layerRange.len :=
        (length_runLayers hlayers).trans hload.length_layers
      rw [hlayers, except_ok_bind] at hstage
      rw [except_ok_bind]
      dsimp only at hstage ⊢
      cases rest with
      | nil =>
        rw [if_pos (htail.2 rfl), runOutput_eq hload.config (hload.outputNorm (htail.2 rfl))
          (hload.lmHead (htail.2 rfl))] at hstage
        have hdrop : model.layers.drop s.nodeConfig.layerRange.stop = [] :=
          List.drop_eq_nil_of_le (Nat.le_of_eq hrest.symm)
        unfold runRest
        rw [hdrop, runLayers, except_ok_bind]
        dsimp only
        cases hlogits : runOutput b model (placedIds len requests) y with
        | error e =>
          rw [hlogits, except_error_bind] at hstage
          rw [hstage.error_right]
          exact .error rfl
        | ok logits =>
          rw [hlogits, except_ok_bind] at hstage
          obtain ⟨⟨output, s₁⟩, hok, heq, c', hs₁, hshow'⟩ := hstage.ok_right
          subst heq hs₁
          rw [hok]
          obtain ⟨hcount, hvocab⟩ := length_of_runOutput hb.toSound hlogits
          have hlen : logits.length = requests.length := by
            rw [hcount, ← List.length_map (·.handle), placedIds, map_handle_place _ _ (by simp)]
            simp
          refine .ok ⟨?_, ⟨hload.onCache c', hrest⟩, ?_, trivial⟩
          · rw [← hlen]
            exact splitLogitsPerSequence_flatten hvocab
          · rw [List.append_nil]
            exact hshow'
      | cons s' rest' =>
        rw [if_neg (by rw [htail]; exact List.cons_ne_nil _ _)] at hstage
        obtain ⟨⟨output, s₁⟩, hok, heq, c', hs₁, hshow'⟩ := hstage.ok_right
        subst heq hs₁
        rw [hok, except_ok_bind]
        have hy : y.length = (requests.flatMap (·.positions)).length :=
          (length_rows_runLayers hb.toSound hlayers).1.trans hx
        have hstop : 0 < s.nodeConfig.layerRange.stop := Nat.zero_lt_of_lt s.nodeConfig.nonempty
        refine (ih hrest hshows (List.cons_ne_nil _ _)
          (List.forall_mem_cons.1 hadmits).2 hy ?_).bind ?_
        · rintro _ ⟨⟩
          exact batchedInput_some hrest.1 hstop _ hy
        · rintro ⟨logits, rest₁⟩ ⟨logits', packed₂⟩ ⟨heq, hpart₁, hshows₁⟩
          subst heq
          refine .ok ⟨rfl, ⟨hload.onCache c', hpart₁⟩, ?_, ?_⟩
          · rw [← hlen₁] at hshow' ⊢
            exact shows_commit_append hshow' packed₂
          · rw [Logical.shift_commit, ← hlen₁, List.drop_left]
            rw [← hlen₁] at hshows₁
            exact hshows₁

/-- What every host of a chain does, the chain does. -/
theorem chain_onHost {f : HostedCache R → Except Fault (HostedCache R)} (g : Logical R → Logical R)
    (hshift : ∀ L n, (g L).shift n = g (L.shift n))
    (hf : ∀ s ∈ stages, ∀ {L k}, s.host.Shows L len k → ∃ host', f s.host = .ok host' ∧ host'.Shows
      (g L) len' k) :
    ∃ stages', stages.mapM (Stage.onHost f) = .ok stages' ∧ Partitioned model first stages' ∧
      ChainShows (g L) len' stages' := by
  induction stages generalizing first L with
  | nil => exact ⟨[], rfl, hpart, trivial⟩
  | cons s rest ih =>
    obtain ⟨hload, hrest⟩ := hpart
    obtain ⟨hshow, hshows⟩ := hshows
    obtain ⟨host', hok, hshow'⟩ := hf s List.mem_cons_self hshow
    obtain ⟨rest', hoks, hrest', hshows'⟩ := ih hrest hshows
      (List.forall_mem_cons.1 hf).2
    refine ⟨{ s with host := host' } :: rest', ?_, ⟨?_, hrest'⟩, hshow', ?_⟩
    · rw [List.mapM_cons, Stage.onHost, hok, except_ok_bind, pure_bind, hoks]
      rfl
    · exact ⟨hload.start, hload.total, hload.config, hload.layers, hload.embedding,
        hload.outputNorm, hload.lmHead⟩
    · rw [hshift]
      exact hshows'

end

section

variable (hcount : ∀ r ∈ requests, r.positions.length = r.tokenIds.length)
include hcount

/-- Tokens and positions of a batch count the same. -/
theorem length_flatMap_tokenIds :
    (requests.flatMap (·.tokenIds)).length = (requests.flatMap (·.positions)).length := by
  rw [List.length_flatMap, List.length_flatMap]
  exact congrArg List.sum (List.map_congr_left fun r hr => (hcount r hr).symm)

/-- The first stage embeds the batch as the model does. -/
theorem batchedInput_none (hload : s.Loads model 0) (host : HostedCache R) :
    batchedInput b s.weights s.nodeConfig (requests.map (host.slice true))
        (requests.flatMap (·.positions)).length none = (do
      let rows ← b.embedding (requests.flatMap (·.tokenIds)) model.tokenEmbedding
      return ⟨rows, model.config.hiddenSize⟩) := by
  have hhead : s.nodeConfig.isHead = true := by
    rw [NodeConfig.isHead, hload.start]
    rfl
  rw [batchedInput, if_pos hhead, if_neg (by simp),
    HostedCache.flatMap_tokenIds_slice]
  rw [if_neg (by rw [length_flatMap_tokenIds hcount]; simp), hload.embedding hhead, hload.config]

end

/-- **A whole batch through the stages.** -/
theorem chainForward_eq (hb : b.Reliable) (hpart : Partitioned model 0 stages)
    (hmodel : 0 < model.layers.length) (hshows : ChainShows L len stages)
    (hadmits : ∀ s ∈ stages, s.host.Admits (.forward requests)) :
    Related Eq
      (fun r y => r.1 = y.1 ∧ Partitioned model 0 r.2 ∧
        ChainShows (L.commit (placedIds len requests) y.2) (lenAfter len (placedIds len requests))
          r.2)
      (chainForward b requests stages none)
      (runModel b model L (placedIds len requests) (requests.flatMap (·.tokenIds))
        (requests.flatMap (·.positions))) := by
  cases stages with
  | nil => exact absurd hpart (Nat.ne_of_lt hmodel)
  | cons s rest =>
    have hallowed := hadmits s List.mem_cons_self
    have hcount : ∀ r ∈ requests, r.positions.length = r.tokenIds.length := fun r hr =>
      (hallowed.2.2.1 r hr).2
    have hinput := batchedInput_none (b := b) hcount hpart.1 s.host
    unfold runModel
    cases hembed : b.embedding (requests.flatMap (·.tokenIds)) model.tokenEmbedding with
    | error e =>
      have hnode := hshows.1.batchedForwardNode hb hallowed s.weights hpart.1.length_layers
        s.nodeConfig rfl true none
      rw [hinput, hembed, except_error_bind, except_error_bind] at hnode
      have hslices := HostedCache.slices_eq (fun r hr => (hallowed.2.2.1 r hr).1) true
      unfold chainForward Stage.batchedForward
      rw [Option.isNone_none, hslices, except_ok_bind, hnode.error_right]
      exact .error rfl
    | ok x =>
      rw [hembed, except_ok_bind] at hinput
      have hx : x.length = (requests.flatMap (·.positions)).length :=
        (hb.embedding_length hembed).trans (length_flatMap_tokenIds hcount)
      have hchain := chainForward_related hpart hshows hb (List.cons_ne_nil _ _) hadmits hx
        (by rintro _ ⟨⟩; exact hinput)
      unfold runRest at hchain
      rw [List.drop_zero] at hchain
      exact hchain

end Chain

/-! ## One host with the whole model -/

/-- **A whole batch on a host that has the whole model.** -/
theorem HostedCache.Shows.batchedForward (hb : b.Reliable) {host : HostedCache R}
    {model : WeightStore W} (hshows : host.Shows L len model.layers.length)
    (hmodel : 0 < model.layers.length) (hadmits : host.Admits (.forward requests))
    (layerRange : LayerRange) (hrange : layerRange.len = model.layers.length) :
    Related Eq
      (fun r y => r.1 = y.1 ∧
        { host with cache := r.2 }.Shows (L.commit (placedIds len requests) y.2)
          (lenAfter len (placedIds len requests)) model.layers.length)
      (outcome (Fracture.batchedForward b model layerRange (requests.map (host.slice true))
        host.cache))
      (runModel b model L (placedIds len requests) (requests.flatMap (·.tokenIds))
        (requests.flatMap (·.positions))) := by
  obtain ⟨L₀, hrep, hagree⟩ := hshows.contents
  have hknown : ∀ r ∈ requests, r.seqId ∈ host.handles := fun r hr => (hadmits.2.2.1 r hr).1
  have hcuts : host.Cuts requests (host.slice true) :=
    cuts_whole fun r hr => (hadmits.2.2.1 r hr).2
  have hforward := batchedForward_related hb (hshows.servable hcuts hadmits hrep) model
    hshows.layers.symm layerRange hrange
  rw [hshows.placedBy_eq hcuts hknown, flatMap_positions_slice,
    flatMap_tokenIds_slice] at hforward
  have hrun : runModel b model L₀ ((placedIds len requests).map (Placed.rename host.handleOf))
      (requests.flatMap (·.tokenIds)) (requests.flatMap (·.positions)) =
      runModel b model L (placedIds len requests) (requests.flatMap (·.tokenIds))
        (requests.flatMap (·.positions)) := by
    refine congrArg _ (funext fun x => ?_)
    rw [runLayers_rename host.handleOf model.layers (agree_placedIds hknown hagree)]
    simp only [runOutput_rename]
  rw [hrun] at hforward
  refine hforward.mono (fun _ _ h => h) ?_
  rintro ⟨logits, c'⟩ ⟨logits', packed⟩ hdone
  exact ⟨hdone.value, hshows.after hmodel hadmits hagree hdone⟩

/-! ## Histories -/

/-- A host with the whole model and a chain of stages that keep one
logical cache. -/
structure InAgreement (model : WeightStore W) (host : HostedCache R) (stages : List (Stage R W)) :
    Prop where
  partitioned : Partitioned model 0 stages
  shows : ∃ L len, host.Shows L len model.layers.length ∧ ChainShows L len stages

/-- The callers' part of an operation, and blocks for it on every host. -/
def Admitted (op : ServeOp) (host : HostedCache R) (stages : List (Stage R W)) : Prop :=
  host.Admits op ∧ ∀ s ∈ stages, s.host.Admits op

instance (op : ServeOp) (host : HostedCache R) (stages : List (Stage R W)) :
    Decidable (Admitted op host stages) := by
  unfold Admitted
  infer_instance

variable {model : WeightStore W} {host : HostedCache R} {stages : List (Stage R W)}

/-- **One operation, served whole and in stages.** -/
theorem InAgreement.step (hb : b.Reliable) (hmodel : 0 < model.layers.length)
    (layerRange : LayerRange) (hrange : layerRange.len = model.layers.length)
    (hagree : InAgreement model host stages) {op : ServeOp} (hallowed : Admitted op host stages) :
    Related Eq (fun r r' => r.1 = r'.1 ∧ InAgreement model r.2 r'.2)
      (serveWhole b model layerRange op host) (serveChain b op stages) := by
  obtain ⟨hpart, L, len, hwhole, hchain⟩ := hagree
  obtain ⟨hadmitWhole, hadmitChain⟩ := hallowed
  cases op with
  | alloc seqId =>
    obtain ⟨host', hok, hwhole'⟩ := hwhole.cacheAlloc hadmitWhole
    obtain ⟨stages', hoks, hpart', hchain'⟩ := chain_onHost hpart hchain
      (fun L => L.clear seqId) (fun L n => L.shift_clear seqId n)
      fun s hs _ _ hshow => hshow.cacheAlloc (hadmitChain s hs)
    rw [serveWhole, serveChain, hok, hoks]
    exact .ok ⟨rfl, hpart', _, _, hwhole', hchain'⟩
  | free seqId =>
    obtain ⟨host', hok, hwhole'⟩ := hwhole.cacheFree hadmitWhole
    obtain ⟨stages', hoks, hpart', hchain'⟩ := chain_onHost hpart hchain id (fun _ _ => rfl)
      fun s hs _ _ hshow => hshow.cacheFree (hadmitChain s hs)
    rw [serveWhole, serveChain, hok, hoks]
    exact .ok ⟨rfl, hpart', _, _, hwhole', hchain'⟩
  | forward requests =>
    have hslices := HostedCache.slices_eq (fun r hr => (hadmitWhole.2.2.1 r hr).1) true
    have hforward := (hwhole.batchedForward hb hmodel hadmitWhole layerRange hrange).trans
      (chainForward_eq hb hpart hmodel hchain hadmitChain).symm
    unfold serveWhole serveChain
    dsimp only
    rw [hslices, except_ok_bind]
    refine Related.then_left (hforward.mono (by rintro _ _ ⟨_, rfl, rfl⟩; rfl) fun _ _ h => h) ?_
    rintro ⟨logits, c'⟩ ⟨logits', stages'⟩ ⟨y, ⟨heq, hwhole'⟩, heq', hpart', hchain'⟩
    exact ⟨_, rfl, heq.trans heq'.symm, hpart', _, _, hwhole', hchain'⟩

/-- A host with nothing allocated, for so many layers. -/
structure HostedCache.Fresh (host : HostedCache R) (k : ℕ) : Prop where
  fitting : host.cache.Fitting
  layers : host.cache.pool.numLayers = k
  handles : host.handles = ∅

theorem HostedCache.Fresh.shows (h : host.Fresh k) (L : Logical R) (len : ℕ → ℕ) :
    host.Shows L len k := by
  have hnone : ∀ {id}, id ∉ host.handles := fun {id} hid => by
    rw [h.handles] at hid
    exact AList.notMem_empty id hid
  exact ⟨h.layers, fun hid => absurd hid hnone, fun hid => absurd hid hnone, _,
    h.fitting.represents, fun hid => absurd hid hnone⟩

theorem chainShows_of_fresh (hfresh : ∀ s ∈ stages, s.host.Fresh s.nodeConfig.layerRange.len)
    (L : Logical R) (len : ℕ → ℕ) : ChainShows L len stages := by
  induction stages generalizing L with
  | nil => trivial
  | cons s rest ih =>
    exact ⟨(hfresh s List.mem_cons_self).shows L len,
      ih (List.forall_mem_cons.1 hfresh).2 _⟩

/-- **A model in stages serves every history like the whole model.** For
any partition of the layers into stages, each with a cache of its own,
and any history of allocations, batches and frees for which the blocks
are there on every host, the chain gives each sequence the logits it has
from one host with all layers; an error of the backend is the same on
both sides. -/
theorem serveChain_eq_serveWhole (hb : b.Reliable) (hmodel : 0 < model.layers.length)
    (layerRange : LayerRange) (hrange : layerRange.len = model.layers.length)
    (hpart : Partitioned model 0 stages) (hwhole : host.Fresh model.layers.length)
    (hstages : ∀ s ∈ stages, s.host.Fresh s.nodeConfig.layerRange.len) {ops : List ServeOp}
    (hallowed : Along Admitted (serveWhole b model layerRange) (serveChain b) ops host stages) :
    (serveAll (serveChain b) ops stages).map (·.1) =
      (serveAll (serveWhole b model layerRange) ops host).map (·.1) := by
  have hstart : InAgreement model host stages :=
    ⟨hpart, fun _ _ _ => [], fun _ => 0, hwhole.shows _ _, chainShows_of_fresh hstages _ _⟩
  have hrun := serveAll_related (fun hagree hop => hagree.step hb hmodel layerRange hrange hop)
    hstart hallowed
  exact (hrun.map_eq fun _ _ hQ => hQ.1).symm

/-- An empty host of four blocks. -/
def emptyHost (numLayers : ℕ) : HostedCache ℕ where
  cache := {
    pool := {
      blocks := fun kv _ _ => kv.pick (List.replicate blockSize 0) (List.replicate blockSize 0)
      freeList := [0, 1, 2, 3], capacity := 4, numLayers, numKvHeads := 1, headDim := 1 }
    sequences := ∅
    nextId := 0 }
  handles := ∅

theorem emptyHost_fresh (numLayers : ℕ) : (emptyHost numLayers).Fresh numLayers := by
  have hnew : PagedKvCacheManager.new zeroBlock 4 numLayers 1 1 =
      .ok (emptyHost numLayers).cache := by
    unfold PagedKvCacheManager.new BlockPool.new
    rw [except_forM_ok]
    · rfl
    · exact fun blockId _ => except_forM_ok fun l _ => rfl
  exact ⟨Fitting.of_new length_zeroBlock hnew, rfl, rfl⟩

/-- The layers of the reference model of two, one on each stage. -/
def twoStages : List (Stage ℕ ℕ) :=
  [⟨"head", referenceWeights 2 ⟨0, 1⟩, ⟨⟨0, 1⟩, 2, by decide, by decide⟩, emptyHost 1⟩,
    ⟨"tail", referenceWeights 2 ⟨1, 2⟩, ⟨⟨1, 2⟩, 2, by decide, by decide⟩, emptyHost 1⟩]

/-- A prompt of one sequence, then its first decode beside the prompt of
another. -/
def twoBatches : List ServeOp :=
  [.alloc 7, .forward [⟨7, [5, 6], [0, 1]⟩], .alloc 9,
    .forward [⟨9, [4], [0]⟩, ⟨7, [3], [2]⟩], .free 7]

theorem twoStages_partitioned :
    Partitioned (referenceWeights 2 ⟨0, 2⟩) 0 twoStages :=
  ⟨⟨rfl, rfl, rfl, rfl, fun _ => rfl, fun _ => rfl, fun _ => rfl⟩,
    ⟨rfl, rfl, rfl, rfl, fun _ => rfl, fun _ => rfl, fun _ => rfl⟩, rfl⟩

theorem serveChain_eq_serveWhole_twoBatches :
    ((serveAll (serveWhole referenceBackend (referenceWeights 2 ⟨0, 2⟩) ⟨0, 2⟩) twoBatches
      (emptyHost 2)).map (·.1)).isOk ∧
    (serveAll (serveChain referenceBackend) twoBatches twoStages).map (·.1) =
      (serveAll (serveWhole referenceBackend (referenceWeights 2 ⟨0, 2⟩) ⟨0, 2⟩) twoBatches
        (emptyHost 2)).map (·.1) :=
  ⟨by decide +kernel, serveChain_eq_serveWhole referenceBackend_reliable (by decide) ⟨0, 2⟩ rfl
    twoStages_partitioned (emptyHost_fresh 2)
    (List.forall_mem_cons.2 ⟨emptyHost_fresh 1, List.forall_mem_singleton.2 (emptyHost_fresh 1)⟩)
    (by decide +kernel)⟩

end Fracture
