import Fracture.Layers.Staffing
import Fracture.TurboQuant.Model

/-!
# How a worker's quantized cache is set up

A worker makes its pool for its own layers, counted from 0: each has a bit
width for keys and for values, and the seeds of its rotations. Nothing
tells the pool which layers of the model they are.
-/

namespace Fracture.TurboQuant

/-- The rotation seeds of a layer's keys and values. -/
def rotationSeeds (baseSeed layer : ℕ) : ℕ × ℕ :=
  ((baseSeed + layer * 1000) % 2 ^ 64, (baseSeed + layer * 1000 + 500) % 2 ^ 64)

theorem rotationSeeds_ne (seed : ℕ) {layer : ℕ} (hpos : 0 < layer) (hwire : layer < 2 ^ 32) :
    (rotationSeeds seed 0).1 ≠ (rotationSeeds seed layer).1 := by
  simp only [rotationSeeds]
  omega

/-- The bit widths and seeds of a layer in a pool of so many layers. -/
def TurboQuantConfig.setup (c : TurboQuantConfig) (seed numLayers layer : ℕ) : ℕ × ℕ × ℕ × ℕ :=
  (c.keyBitsForLayer layer numLayers, c.valueBitsForLayer layer numLayers,
    rotationSeeds seed layer)

/-- Each layer of a worker is set up as in a pool for the whole model. -/
def SetUpAlike (c : TurboQuantConfig) (seed numLayers : ℕ) (r : LayerRange) : Prop :=
  ∀ layer ∈ r.layers, c.setup seed r.len (layer - r.start) = c.setup seed numLayers layer

instance (c : TurboQuantConfig) (seed numLayers : ℕ) (r : LayerRange) :
    Decidable (SetUpAlike c seed numLayers r) :=
  inferInstanceAs (Decidable (∀ layer ∈ r.layers, _))

/-- **Workers set their layers up as the whole model does exactly if there
is one worker**, whatever is protected: the seeds of a second worker are
those of other layers. Layers are numbered in 32 bits on the wire. -/
theorem setUpAlike_iff_single (c : TurboQuantConfig) (seed : ℕ) {numLayers : ℕ}
    (hwire : numLayers < 2 ^ 32) {workers : List NodeConfig}
    (hspans : Layers.Spans 0 (workers.map (·.layerRange)) numLayers) :
    (∀ w ∈ workers, SetUpAlike c seed numLayers w.layerRange) ↔ workers.length ≤ 1 := by
  rcases workers with _ | ⟨first, _ | ⟨second, rest⟩⟩
  · simp
  · obtain ⟨hstart, -, hstop⟩ := hspans
    refine iff_of_true (fun w hw layer _ => ?_) le_rfl
    rw [List.mem_singleton.1 hw, LayerRange.len, hstart,
      show first.layerRange.stop = numLayers from hstop]
    rfl
  · refine iff_of_false (fun hall => ?_) (by simp)
    obtain ⟨-, -, hnext, -, hrest⟩ := hspans
    dsimp only at hnext
    have hfirst := first.nonempty
    have hsecond := second.nonempty
    have hin : second.layerRange.stop ≤ numLayers := (Layers.Spans.stop_le hrest).1
    -- the second worker's first layer
    have hsame := hall second (.tail _ (.head _)) second.layerRange.start
      (List.mem_range'_1.2 ⟨le_rfl, by omega⟩)
    rw [Nat.sub_self] at hsame
    exact rotationSeeds_ne seed (by omega) (by omega) (congrArg (fun s => s.2.2.1) hsame)

/-- One worker with all four layers. -/
theorem setUpAlike_iff_single_whole :
    ∃ w : NodeConfig, w.layerRange = ⟨0, 4⟩ ∧ SetUpAlike ⟨4, 2, 8, 1⟩ 42 4 w.layerRange := by
  let w : NodeConfig := ⟨⟨0, 4⟩, 4, by decide, by decide⟩
  have hspans : Layers.Spans 0 ([w].map (·.layerRange)) 4 := ⟨rfl, by decide, rfl⟩
  exact ⟨w, rfl, (setUpAlike_iff_single ⟨4, 2, 8, 1⟩ 42 (by decide) hspans).2 le_rfl w (.head _)⟩

/-- Two layers each for two workers. With the first and the last layer
protected, the first worker protects layer 1, its last one; and without,
the second worker has the seeds of layers 0 and 1. -/
theorem halves_set_up_otherwise :
    Layers.Spans 0 [⟨0, 2⟩, ⟨2, 4⟩] 4 ∧
      TurboQuantConfig.keyBitsForLayer ⟨4, 2, 8, 1⟩ 1 2 = 8 ∧
      TurboQuantConfig.keyBitsForLayer ⟨4, 2, 8, 1⟩ 1 4 = 4 ∧
      ¬ SetUpAlike ⟨4, 2, 8, 1⟩ 42 4 ⟨0, 2⟩ ∧ ¬ SetUpAlike ⟨4, 2, 8, 0⟩ 42 4 ⟨2, 4⟩ := by
  refine ⟨⟨rfl, by decide, rfl, by decide, rfl⟩, ?_⟩
  decide +kernel

end Fracture.TurboQuant
