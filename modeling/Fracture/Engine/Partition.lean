import Fracture.Engine.Forward
import Fracture.Engine.Pipeline

/-!
# Cutting the logical pass

The layers of a logical pass can be run in stretches, each on the layers
of the logical cache it needs, counted from its own first layer. Handles
are only names: sequences kept under other handles give the same pass.
-/

namespace Fracture

open Effect Rows

variable {R W F : Type}

/-- The logical cache from layer `n` on. -/
def Logical.shift (L : Logical R) (n : ℕ) : Logical R := fun h l => L h (n + l)

theorem Logical.shift_clear (L : Logical R) (h : CacheHandle) (n : ℕ) :
    (L.clear h).shift n = (L.shift n).clear h := by
  funext g l
  unfold Logical.shift Logical.clear
  split <;> rfl

/-- The same place under another handle. -/
def Placed.rename (f : CacheHandle → CacheHandle) (p : Placed) : Placed :=
  { p with handle := f p.handle }

theorem place_rename (f : CacheHandle → CacheHandle) (offset : ℕ)
    (parts : List (CacheHandle × ℕ)) (starts : List ℕ) :
    place offset (parts.map fun part => (f part.1, part.2)) starts =
      (place offset parts starts).map (Placed.rename f) := by
  induction parts generalizing offset starts with
  | nil => rfl
  | cons part rest ih =>
    obtain _ | ⟨startPos, more⟩ := starts
    · rfl
    · exact congrArg _ (ih _ more)

section Layers

variable {b : Backend R W F} {cfg : ModelConfig} {L L' : Logical R} {placed : List Placed}
  {positions : List ℕ} (f : CacheHandle → CacheHandle) (weights : WeightStore W)

/-- A layer under other handles, on the layer of another logical cache
that has the same rows. -/
theorem runLayer_rename {l l' : ℕ} (hrows : ∀ p ∈ placed, L' (f p.handle) l' = L p.handle l)
    (w : LayerWeights W) (x : List R) :
    runLayer b cfg L' (placed.map (Placed.rename f)) positions w l' x =
      runLayer b cfg L placed positions w l x := by
  have hattend : ∀ q (packed : Kv → List R),
      attendPlaced b cfg.numKvHeads L' l' (placed.map (Placed.rename f)) q packed =
        attendPlaced b cfg.numKvHeads L l placed q packed := by
    intro q packed
    unfold attendPlaced
    rw [List.mapM_map]
    refine congrArg (· >>= _) (except_mapM_congr fun p hp => ?_)
    change attendRows b cfg.numKvHeads (p.rows q)
      (fun kv => L' (f p.handle) l' kv ++ p.rows (packed kv)) = _
    rw [hrows p hp]
  simp only [runLayer, hattend]

/-- **A stretch of layers under other handles**, counted from its own
first layer. -/
theorem runLayers_rename (ws : List (LayerWeights W)) {l l' : ℕ}
    (hrows : ∀ p ∈ placed, ∀ i < ws.length, L' (f p.handle) (l' + i) = L p.handle (l + i))
    (x : List R) :
    runLayers b cfg L' (placed.map (Placed.rename f)) positions ws l' x =
      runLayers b cfg L placed positions ws l x := by
  induction ws generalizing l l' x with
  | nil => rfl
  | cons w ws ih =>
    have hfirst : ∀ p ∈ placed, L' (f p.handle) l' = L p.handle l := fun p hp =>
      hrows p hp 0 (by rw [List.length_cons]; omega)
    have hrest : ∀ p ∈ placed, ∀ i < ws.length,
        L' (f p.handle) (l' + 1 + i) = L p.handle (l + 1 + i) := fun p hp i hi => by
      have := hrows p hp (i + 1) (by rw [List.length_cons]; omega)
      rwa [Nat.add_assoc, Nat.add_comm 1 i, Nat.add_assoc l 1 i, Nat.add_comm 1 i]
    unfold runLayers
    rw [runLayer_rename f hfirst]
    simp only [ih hrest]

/-- **Layers run in two stretches.** -/
theorem runLayers_append (ws₁ ws₂ : List (LayerWeights W)) (l : ℕ) (x : List R) :
    runLayers b cfg L placed positions (ws₁ ++ ws₂) l x = (do
      let (y, packed₁) ← runLayers b cfg L placed positions ws₁ l x
      let (z, packed₂) ← runLayers b cfg L placed positions ws₂ (l + ws₁.length) y
      return (z, packed₁ ++ packed₂)) := by
  induction ws₁ generalizing l x with
  | nil =>
    simp only [List.nil_append, runLayers, except_ok_bind, List.length_nil, Nat.add_zero]
    cases runLayers b cfg L placed positions ws₂ l x <;> rfl
  | cons w ws₁ ih =>
    simp only [List.cons_append, runLayers, ih, bind_assoc, List.length_cons]
    refine congrArg _ (funext fun _ => congrArg _ (funext fun _ => ?_))
    simp [Nat.add_assoc, Nat.add_comm 1]

theorem projectEnds_rename (normed : List R) :
    projectEnds b weights (placed.map (Placed.rename f)) normed =
      projectEnds b weights placed normed := by
  unfold projectEnds
  rw [List.mapM_map]
  rfl

theorem runOutput_rename (x : List R) :
    runOutput b weights (placed.map (Placed.rename f)) x = runOutput b weights placed x := by
  simp only [runOutput, projectEnds_rename]

/-- Every sequence has logits for the whole vocabulary. -/
theorem length_of_runOutput (hb : b.Sound) {weights : WeightStore W} {x : List R}
    {logits : List (List F)} (hok : runOutput b weights placed x = .ok logits) :
    logits.length = placed.length ∧ ∀ v ∈ logits, v.length = weights.config.vocabSize := by
  obtain ⟨normed, -, hends⟩ := except_bind_eq_ok.1 hok
  refine ⟨length_of_except_mapM hends, fun v hv => ?_⟩
  obtain ⟨p, -, hv⟩ := exists_of_mem_except_mapM hends hv
  obtain ⟨lastIdx, -, hv⟩ := except_bind_eq_ok.1 hv
  obtain ⟨t, -, hv⟩ := except_bind_eq_ok.1 hv
  exact hb.copyToHost_length hv

/-- What a stretch of layers commits to the sequences, from its first
layer on, is what the whole pass commits there. -/
theorem Logical.shift_commit (L : Logical R) (placed : List Placed)
    (packed : List (Kv → List R)) (n : ℕ) :
    (L.commit placed packed).shift n = (L.shift n).commit placed (packed.drop n) := by
  funext h l kv
  simp only [Logical.shift, Logical.commit, List.getElem?_drop]

end Layers

/-- The logits of a batch, laid one behind the other and cut up again. -/
theorem splitLogitsPerSequence_flatten {rows : List (List F)} {vocabSize : ℕ}
    (hrows : ∀ v ∈ rows, v.length = vocabSize) :
    splitLogitsPerSequence rows.flatten rows.length = rows := by
  unfold splitLogitsPerSequence
  refine List.ext_getElem (by simp) fun i _ hi => ?_
  have hvocab : rows.flatten.length / rows.length = vocabSize := by
    rw [length_flatten_of_length_eq hrows, Nat.mul_div_cancel_left _ (by omega)]
  simp only [List.getElem_map, List.getElem_range, hvocab]
  exact window_flatten hrows (List.getElem?_eq_getElem hi)

end Fracture
