import Fracture.Engine.RowWise

/-!
# A model on the reference backend

Operations on rows in pairs act row by row. A model with weights of 1 on
the reference backend can be run, split into nodes and compared on any
cache.
-/

namespace Fracture

open Effect

theorem zipRows_eq_ok {R : Type} (f : R → R → R) {x y : List R} (h : x.length = y.length) :
    zipRows f x y = .ok (List.zipWith f x y) := if_pos h

theorem zipRows_split {R : Type} (f : R → R → R) : ActsByRow₂ (zipRows f) := by
  intro xs ys xs' ys' hx hy
  rw [zipRows_eq_ok f hx, zipRows_eq_ok f hy,
    zipRows_eq_ok f (by rw [List.length_append, List.length_append, hx, hy])]
  exact .ok (List.zipWith_append hx)

/-- A layer whose weights are all 1. -/
def referenceLayer : LayerWeights ℕ :=
  { qProj := 1, kProj := 1, vProj := 1, oProj := 1, gateProj := 1, upProj := 1, downProj := 1,
    attnNorm := 1, ffnNorm := 1 }

def referenceConfig (numLayers : ℕ) : ModelConfig :=
  { hiddenSize := 1, numLayers, numQHeads := 1, numKvHeads := 1, headDim := 1,
    intermediateSize := 1, vocabSize := 1, ropeTheta := 1, rmsNormEps := 1, maxSeqLen := 64 }

/-- The part of a model of so many layers that a range of them needs. -/
def referenceWeights (numLayers : ℕ) (range : LayerRange) : WeightStore ℕ :=
  { config := referenceConfig numLayers, tokenEmbedding := 1,
    layers := List.replicate range.len referenceLayer, outputNorm := 1, lmHead := 1 }

/-- An engine with all layers of the reference model. -/
def referenceEngine (numLayers : ℕ) : Engine ℕ ℕ ℕ :=
  { backend := referenceBackend, weights := referenceWeights numLayers ⟨0, numLayers⟩,
    layerRange := ⟨0, numLayers⟩ }

end Fracture
