import Fracture.Engine.Attempt

/-!
# How a pass lengthens the cache

A pass that came through has appended every sequence's rows on layer 0,
once, so each sequence is longer by its rows in the batch. This needs no
room in the pool as an assumption: a pass that came through found it.
-/

namespace Fracture

open Effect Rows PagedKvCacheManager

variable {R W F : Type} {b : Backend R W F} {c c' c'' : PagedKvCacheManager R}

/-- The rows a batch has for a sequence. -/
def added (placed : List Placed) (h : CacheHandle) : ℕ :=
  ((placed.filter (·.handle = h)).map (·.count)).sum

/-- Every sequence is longer by its rows in a batch. -/
structure Lengthened (placed : List Placed) (c c' : PagedKvCacheManager R) : Prop where
  accounted : c'.Accounted
  lens : ∀ h, c'.lenOf h = (c.lenOf h).map (· + added placed h)

namespace Lengthened

theorem refl (h : c.Accounted) : Lengthened [] c c :=
  ⟨h, fun _ => by simp [added]⟩

theorem trans {placed more : List Placed} (h : Lengthened placed c c')
    (h' : Lengthened more c' c'') : Lengthened (placed ++ more) c c'' := by
  refine ⟨h'.accounted, fun g => ?_⟩
  rw [h'.lens, h.lens, Option.map_map]
  refine congrArg (Option.map · _) (funext fun n => ?_)
  simp [added, Nat.add_assoc]

end Lengthened

variable {h : CacheHandle}

/-- An append that came through. -/
theorem lens_of_appendKv (hacc : c.Accounted) {layer : ℕ} {keys values : List R}
    (hok : appendKv b h layer keys values c = .ok () c') (g : CacheHandle) :
    c'.lenOf g = (c.lenOf g).map (· + if layer = 0 ∧ h = g then keys.length else 0) := by
  have hstep := appended b h layer keys values fun seq hseq => hacc.fill hseq
  rw [hok, state_ok] at hstep
  cases hstep with
  | invalid hseq =>
    rw [appendKv_of_notLive hseq] at hok
    cases hok
  | written _ hlayer =>
    rw [if_neg fun h => hlayer h.1]
    exact (Option.map_id' ..).symm
  | @exhausted seq hseq hlayer hlack =>
    subst hlayer
    rw [appendKv_drained (hacc.fill hseq) hseq _ _ hlack]
      at hok
    cases hok
  | @grown seq pool hseq hlayer =>
    by_cases hg : h = g
    · subst hg
      have hlookup : ({ c.grown h seq keys.length with pool } : PagedKvCacheManager R).sequences.lookup
          h = some (seq.grow (c.pool.freeList.take (extraBlocks seq.lastBlockFill keys.length))
            keys.length) := AList.lookup_insert _
      rw [lenOf, lenOf, hlookup, hseq, if_pos ⟨hlayer, rfl⟩]
      rfl
    · have hlookup : ({ c.grown h seq keys.length with pool } : PagedKvCacheManager R).sequences.lookup
          g = c.sequences.lookup g := AList.lookup_insert_ne (Ne.symm hg)
      rw [lenOf, lenOf, hlookup, if_neg fun h => hg h.2]
      exact (Option.map_id' ..).symm

theorem added_cons (p : Placed) (placed : List Placed) (h : CacheHandle) :
    added (p :: placed) h = (if p.handle = h then p.count else 0) + added placed h := by
  unfold added
  by_cases hp : p.handle = h
  · simp [hp]
  · simp [hp]

variable {placed : List Placed} {cacheIdx : ℕ}

/-- The appends of one layer that came through. Only layer 0 counts. -/
theorem lengthened_of_appendSlices (hb : b.Sound) {k v : List R} (hacc : c.Accounted)
    (hok : appendSlices b cacheIdx k v placed c = .ok () c') :
    Lengthened (if cacheIdx = 0 then placed else []) c c' := by
  induction placed generalizing c with
  | nil =>
    cases hok
    split <;> exact .refl hacc
  | cons p placed ih =>
    obtain ⟨keys, values, c₁, hcount, happend, hok⟩ := appendSlices_cons_inv hb hok
    have hacc₁ : c₁.Accounted := by
      have hkept := hacc.append b p.handle cacheIdx keys values
      rwa [show appendKv b p.handle cacheIdx keys values c = _ from happend, state_ok] at hkept
    have hrest := ih hacc₁ hok
    have hlens := lens_of_appendKv hacc happend
    refine ⟨hrest.accounted, fun g => ?_⟩
    rw [hrest.lens, hlens, Option.map_map]
    refine congrArg (Option.map · _) (funext fun n => ?_)
    rw [Function.comp_apply, hcount]
    by_cases hzero : cacheIdx = 0
    · rw [if_pos hzero, if_pos hzero, added_cons]
      simp only [hzero, true_and]
      omega
    · simp [hzero, added]

variable {positions : List ℕ} {x attnOut : List R}

theorem lengthened_of_batchedLayer (hb : b.Sound) {cfg : ModelConfig} {w : LayerWeights W}
    {r : List R × List R} (hacc : c.Accounted)
    (hok : batchedLayer b cfg w positions placed cacheIdx x attnOut c = .ok r c') :
    Lengthened (if cacheIdx = 0 then placed else []) c c' := by
  obtain ⟨⟨q, k, v⟩, -, hok⟩ := lift_bind_eq_ok.1 hok
  obtain ⟨c₁, happend, hok⟩ := unit_bind_eq_ok.1 hok
  rw [get_bind] at hok
  obtain ⟨attn, -, hok⟩ := lift_bind_eq_ok.1 hok
  obtain ⟨y, -, hok⟩ := lift_bind_eq_ok.1 hok
  cases hok
  exact lengthened_of_appendSlices hb hacc happend

variable {weights : WeightStore W} {y : List R}

/-- The layers behind the first one add nothing. -/
theorem lengthened_of_batchedLayers (hb : b.Sound) {first : ℕ} {layers : List ℕ}
    (hlater : ∀ l ∈ layers, first < l) (hacc : c.Accounted)
    (hok : batchedLayers b weights positions placed first layers x attnOut c = .ok y c') :
    Lengthened [] c c' := by
  induction layers generalizing c x attnOut with
  | nil =>
    cases hok
    exact .refl hacc
  | cons l layers ih =>
    obtain ⟨w, -, hok⟩ := lift_bind_eq_ok.1 hok
    obtain ⟨⟨x', attnOut'⟩, c₁, hlayer, hok⟩ := bind_eq_ok.1 hok
    have hlt := hlater l (.head _)
    have hfirst := lengthened_of_batchedLayer hb hacc hlayer
    rw [if_neg (by omega)] at hfirst
    exact hfirst.trans (ih (fun l' hl' => hlater l' (.tail _ hl')) hfirst.accounted hok)

variable {range : LayerRange}

/-- **The layers of a node lengthen each sequence by its rows.** -/
theorem lengthened_of_range (hb : b.Sound) (hne : range.start < range.stop) (hacc : c.Accounted)
    (hok : batchedLayers b weights positions placed range.start range.layers x attnOut c = .ok y c') :
    Lengthened placed c c' := by
  rw [LayerRange.layers_eq_cons hne] at hok
  obtain ⟨w, -, hok⟩ := lift_bind_eq_ok.1 hok
  obtain ⟨⟨x', attnOut'⟩, c₁, hlayer, hok⟩ := bind_eq_ok.1 hok
  have hfirst := lengthened_of_batchedLayer hb hacc hlayer
  rw [if_pos (Nat.sub_self _)] at hfirst
  have hrest := lengthened_of_batchedLayers hb (fun l hl => by
    rw [List.mem_range'_1] at hl
    omega) hfirst.accounted hok
  simpa using hfirst.trans hrest

/-! ## A whole call -/

variable {starts : List ℕ}

/-- What a batch adds, by its parts. -/
theorem added_place (offset : ℕ) (parts : List (CacheHandle × ℕ))
    (hlen : starts.length = parts.length) (h : CacheHandle) :
    added (place offset parts starts) h = ((parts.filter (·.1 = h)).map (·.2)).sum := by
  nth_rewrite 2 [← map_part_place offset parts hlen]
  rw [List.filter_map, List.map_map]
  rfl

variable {parts : List (CacheHandle × ℕ)}

/-- The rows a batch of distinct handles has for one of them. -/
theorem sum_parts_of_mem (hnodup : (parts.map (·.1)).Nodup) {n : ℕ} (hmem : (h, n) ∈ parts) :
    ((parts.filter (·.1 = h)).map (·.2)).sum = n := by
  rw [Assoc.filter_key_eq_singleton hnodup hmem, List.map_singleton, List.sum_singleton]

theorem sum_parts_of_notMem (hnot : h ∉ parts.map (·.1)) :
    ((parts.filter (·.1 = h)).map (·.2)).sum = 0 := by
  rw [Assoc.filter_key_eq_nil hnot]
  rfl

/-- The layers of a node leave each sequence longer by its parts. -/
theorem lens_of_place (hb : b.Sound) (hne : range.start < range.stop) (hacc : c.Accounted)
    (hlen : starts.length = parts.length)
    (hok : batchedLayers b weights positions (place 0 parts starts) range.start range.layers x
      attnOut c = .ok y c') (h : CacheHandle) :
    c'.lenOf h = (c.lenOf h).map (· + ((parts.filter (·.1 = h)).map (·.2)).sum) := by
  rw [(lengthened_of_range hb hne hacc hok).lens, added_place 0 _ hlen]

variable {sequences : List SequenceSlice}

/-- A batch that came through the whole model leaves each sequence longer
by its tokens. -/
theorem lens_of_batchedForward (hb : b.Sound) (hne : range.start < range.stop)
    {logits : List (List F)} (hacc : c.Accounted)
    (hok : batchedForward b weights range sequences c = .ok logits c') (h : CacheHandle) :
    c'.lenOf h = (c.lenOf h).map (· +
      (((sequences.map fun s => (s.handle, s.tokenIds.length)).filter (·.1 = h)).map (·.2)).sum) := by
  rcases batchedForward_inv hok with ⟨rfl, -, rfl⟩ |
    ⟨starts, x, attnOut, y, normed, hstarts, hlayers, -⟩
  · simp
  · exact lens_of_place hb hne hacc
      ((length_of_except_mapM hstarts).trans (List.length_map _).symm) hlayers h

/-- The layers of a node ran over a batch: `x` are the rows behind the last
layer, and `placed` says which of them are whose. -/
def NodeRun (b : Backend R W F) (weights : WeightStore W) (nodeConfig : NodeConfig)
    (sequences : List SequenceSlice) (input : Option (Activations R))
    (c : PagedKvCacheManager R) (x : List R) (placed : List Placed)
    (c' : PagedKvCacheManager R) : Prop :=
  ∃ hiddenState starts attnOut,
    batchedInput b weights nodeConfig sequences (sequences.flatMap (·.positions)).length input =
        .ok hiddenState ∧
      startPositions c sequences = .ok starts ∧
      placed = place 0 (sequences.map fun s => (s.handle, s.positions.length)) starts ∧
      batchedLayers b weights (sequences.flatMap (·.positions)) placed
        nodeConfig.layerRange.start nodeConfig.layerRange.layers hiddenState.rows attnOut c =
        .ok x c'

/-- **A batch that came through a node**: a tail returned the logits of
its sequences, one behind the other, any other node its rows. -/
theorem nodeRun_of_ok {nodeConfig : NodeConfig} {input : Option (Activations R)}
    {output : NodeOutput R F}
    (hok : batchedForwardNode b weights nodeConfig sequences input c = .ok output c') :
    ∃ x placed, NodeRun b weights nodeConfig sequences input c x placed c' ∧
      ((∃ normed logits, b.rmsnorm x weights.outputNorm weights.config.rmsNormEps = .ok normed ∧
          lastLogits b weights normed placed = .ok logits ∧ output = .logits logits.flatten) ∨
        ∃ width, output = .activations { rows := x, width }) := by
  unfold batchedForwardNode at hok
  split at hok
  · cases hok
  · obtain ⟨hiddenState, hinput, hok⟩ := lift_bind_eq_ok.1 hok
    rw [get_bind] at hok
    obtain ⟨starts, hstarts, hok⟩ := lift_bind_eq_ok.1 hok
    obtain ⟨attnOut, -, hok⟩ := lift_bind_eq_ok.1 hok
    obtain ⟨x, c₁, hlayers, hok⟩ := bind_eq_ok.1 hok
    split at hok
    · obtain ⟨normed, hnormed, hok⟩ := lift_bind_eq_ok.1 hok
      obtain ⟨logits, hlogits, hok⟩ := lift_bind_eq_ok.1 hok
      cases hok
      exact ⟨x, _, ⟨hiddenState, starts, attnOut, hinput, hstarts, rfl, hlayers⟩,
        .inl ⟨normed, logits, hnormed, hlogits, rfl⟩⟩
    · cases hok
      exact ⟨x, _, ⟨hiddenState, starts, attnOut, hinput, hstarts, rfl, hlayers⟩, .inr ⟨_, rfl⟩⟩

namespace NodeRun

variable {weights : WeightStore W} {nodeConfig : NodeConfig} {sequences : List SequenceSlice}
  {input : Option (Activations R)} {x : List R} {placed : List Placed}

section

variable (hb : b.Sound) (hacc : c.Accounted)
  (hrun : NodeRun b weights nodeConfig sequences input c x placed c')
include hb hacc hrun

/-- Each sequence is longer by its positions. -/
theorem lens (h : CacheHandle) :
    c'.lenOf h = (c.lenOf h).map (· +
      (((sequences.map fun s => (s.handle, s.positions.length)).filter (·.1 = h)).map (·.2)).sum) := by
  obtain ⟨hiddenState, starts, attnOut, -, hstarts, rfl, hlayers⟩ := hrun
  exact lens_of_place hb nodeConfig.nonempty hacc
    ((length_of_except_mapM hstarts).trans (List.length_map _).symm) hlayers h

theorem accounted : c'.Accounted := by
  obtain ⟨hiddenState, starts, attnOut, -, -, rfl, hlayers⟩ := hrun
  exact (lengthened_of_range hb nodeConfig.nonempty hacc hlayers).accounted

end

/-- Without activations the node is the head, and each row has a token. -/
theorem tokens_eq (hrun : NodeRun b weights nodeConfig sequences none c x placed c') :
    (sequences.flatMap (·.tokenIds)).length = (sequences.flatMap (·.positions)).length := by
  obtain ⟨hiddenState, -, -, hinput, -⟩ := hrun
  unfold batchedInput at hinput
  split at hinput
  · rw [if_neg (by simp)] at hinput
    dsimp only at hinput
    split at hinput
    · cases hinput
    · next hcount => exact not_not.1 hcount
  · cases hinput

end NodeRun

end Fracture
