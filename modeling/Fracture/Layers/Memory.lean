import Fracture.Gguf.Load
import Fracture.Layers.Schedule

/-!
# What a scheduled node loads

The scheduler estimates a layer's weights from the model's dimensions, and
charges the embedding table to the first node of a pipeline and the output
norm and projection to the last. The loader uploads all three on every
node. A schedule keeps the charge within the node's memory; what the node
loads uncharged has to fit into the rest. On a pipeline of one node there
is none of it.
-/

namespace Fracture

namespace Layers

open Effect

variable {F : Type} {input : SchedulerInput F} {file : GgufFile} {build : Build}
  {device : Gguf.Device} {conv : Gguf.HalfConversion}

/-- Device memory of a node that has loaded its range and keeps the cache of
one sequence of the longest length. -/
def nodeBytes (input : SchedulerInput F) (range : LayerRange) (w : LoadedWeights) : ℕ :=
  w.sizeBytes +
    ((sequenceCache input.modelConfig input.maxSeqLen range.len).map (·.sizeBytes)).sum

/-- What the scheduler charges the `i`-th of `n` nodes for a range. -/
def chargedBytes (input : SchedulerInput F) (i n : ℕ) (range : LayerRange) : ℕ :=
  range.len * perLayerTotal input + roleOverhead i n input.modelConfig

/-- What a layer is charged and does not take: the estimate has square
projections for queries and output, whatever the heads leave of a row. -/
def overcharge (config : ModelConfig) : ℕ :=
  config.hiddenSize * (config.hiddenSize - config.numQHeads * config.headDim) * 2 * 2

/-- What the `i`-th of `n` nodes loads besides its layers without being
charged for it. -/
def unchargedBytes (i n : ℕ) (config : ModelConfig) : ℕ :=
  (if i = 0 then 0 else headOverhead config) + (if i = n - 1 then 0 else tailOverhead config)

/-- **The estimate of a layer** is the layer's weights and the overcharge. -/
theorem layerBytes_add_overcharge {config : ModelConfig}
    (hheads : config.numQHeads * config.headDim ≤ config.hiddenSize) :
    layerBytes config + overcharge config = weightMemoryPerLayer config := by
  obtain ⟨rest, hrest⟩ := Nat.exists_eq_add_of_le hheads
  have hsub : config.hiddenSize - config.numQHeads * config.headDim = rest := by omega
  simp only [layerBytes, layerTensors, LayerField.all, LayerField.shape, List.map_cons,
    List.map_nil, List.sum_cons, List.sum_nil, DeviceTensor.sizeBytes, DeviceTensor.numel,
    DType.sizeBytes, List.prod_cons, List.prod_nil, reduceCtorEq, if_false, overcharge, hsub,
    weightMemoryPerLayer]
  rw [hrest]
  ring

/-- Charged or not, the three tensors are on every node. -/
theorem roleOverhead_add_unchargedBytes (i n : ℕ) (config : ModelConfig) :
    roleOverhead i n config + unchargedBytes i n config =
      headOverhead config + tailOverhead config := by
  unfold unchargedBytes
  by_cases hhead : i = 0 <;> by_cases htail : i = n - 1 <;>
    simp [roleOverhead, hhead, htail] <;> grind

/-- What a node loads, in terms of what it is charged. -/
theorem nodeBytes_add_overcharge (hfile : file.Conforms) (hconfig : input.modelConfig = file.config)
    (hheads : file.config.numQHeads * file.config.headDim ≤ file.config.hiddenSize)
    {range : LayerRange} {w : LoadedWeights}
    (h : LoadedWeights.load build device conv file range = .ok w) (i n : ℕ) :
    nodeBytes input range w + range.len * overcharge input.modelConfig =
      chargedBytes input i n range + unchargedBytes i n input.modelConfig := by
  have hload := LoadedWeights.load_sizeBytes hfile h
  have hcache := sequenceCache_sizeBytes input.modelConfig input.maxSeqLen range.len
  have hrole := roleOverhead_add_unchargedBytes i n input.modelConfig
  have hglobal : globalBytes input.modelConfig =
      headOverhead input.modelConfig + tailOverhead input.modelConfig := by
    unfold globalBytes headOverhead tailOverhead
    omega
  rw [← hconfig] at hload hheads
  rw [nodeBytes, chargedBytes, perLayerTotal, ← layerBytes_add_overcharge hheads, hload, hcache,
    hglobal, Nat.mul_add, Nat.mul_add, cacheMemoryPerLayer]
  omega

/-- **What a scheduled node loads fits** exactly if what it loads without
being charged fits into what the schedule's charge leaves of its memory:
the embedding table on a node that is not first, the output norm and
projection on one that is not last. The charge itself fits by the schedule,
save on a node without layers. -/
theorem nodeBytes_le_iff (f : F32 F) (input : SchedulerInput F) (r : SchedulerResult F)
    (build : Build) (device : Gguf.Device) (conv : Gguf.HalfConversion) (file : GgufFile)
    (hfile : file.Conforms) (hconfig : input.modelConfig = file.config)
    (hheads : file.config.numQHeads * file.config.headDim ≤ file.config.hiddenSize)
    (hdistinct : ((candidates input).map (·.nodeId)).Nodup) (h : schedule f input = .ok r) :
    ∀ i a w, r.assignments[i]? = some a → w ∈ candidates input → w.nodeId = a.nodeId →
      ∀ loaded, LoadedWeights.load build device conv file a.layerRange = .ok loaded →
      (nodeBytes input a.layerRange loaded ≤ w.gpuMemoryAvailable ↔
        (a.layerRange.len = 0 → chargedBytes input i r.assignments.length a.layerRange ≤
          w.gpuMemoryAvailable) ∧
        unchargedBytes i r.assignments.length input.modelConfig ≤
          w.gpuMemoryAvailable - chargedBytes input i r.assignments.length a.layerRange +
            a.layerRange.len * overcharge input.modelConfig) := by
  intro i a w ha hw hid loaded hload
  have hbytes := nodeBytes_add_overcharge hfile hconfig hheads hload i r.assignments.length
  rcases Nat.eq_zero_or_pos a.layerRange.len with hzero | hpos
  · rw [hzero, Nat.zero_mul] at hbytes ⊢
    omega
  · obtain ⟨cs, counts, hplan⟩ := exists_planned h
    have hcharged : chargedBytes input i r.assignments.length a.layerRange ≤
        w.gpuMemoryAvailable := hplan.memory hdistinct ha hw hid hpos
    omega

/-- A file with every tensor of the small model. -/
def smallFile : GgufFile :=
  { config := fourLayers, mmap := [0, 0], tensorDataOffset := 0,
    tensors := (TensorName.all fourLayers).map fun name =>
      ⟨name.text, name.shape fourLayers, .fp16, 0, 1⟩ }

/-- What a node has of the file after loading a range, on a device with
memory for all of it. -/
def loadSmall (range : LayerRange) : Except Fault LoadedWeights :=
  LoadedWeights.load .debug ⟨fun _ _ => .ok (), fun _ bytes => .ok bytes⟩
    ⟨fun _ => 0, fun _ => 0⟩ smallFile range

/-- Two workers that share the layers evenly; the first has so many bytes. -/
def evenInput (bytes : ℕ) : SchedulerInput ℚ :=
  { modelConfig := fourLayers, workers := [⟨"w1", bytes, 1, 1⟩, ampleWorker "w2"],
    coordinatorCompute := none, mode := .equalSplit, maxSeqLen := 64, hopLatencyMs := 2 }

theorem smallFile_conforms : smallFile.Conforms := by
  unfold GgufFile.Conforms
  decide +kernel

/-- The first of the two nodes is given the two layers that fill its memory
with the embedding table; what it loads takes four bytes more. -/
theorem output_uncharged :
    smallFile.Conforms ∧ ∃ r w, schedule F32.exact (evenInput 550) = .ok r ∧
      (r.assignments.map fun a => (a.nodeId, a.layerRange)) = [("w1", ⟨0, 2⟩), ("w2", ⟨2, 4⟩)] ∧
      loadSmall ⟨0, 2⟩ = .ok w ∧
      nodeBytes (evenInput 550) ⟨0, 2⟩ w = 554 := by
  have hschedule : ((schedule F32.exact (evenInput 550)).toOption.map fun r =>
      r.assignments.map fun a => (a.nodeId, a.layerRange)) =
      some [("w1", ⟨0, 2⟩), ("w2", ⟨2, 4⟩)] := by decide +kernel
  have hload : ((loadSmall ⟨0, 2⟩).toOption.map
      (nodeBytes (evenInput 550) ⟨0, 2⟩)) = some 554 := by decide +kernel
  obtain ⟨r, hr, hranges⟩ := Option.map_eq_some_iff.1 hschedule
  obtain ⟨w, hw, hbytes⟩ := Option.map_eq_some_iff.1 hload
  exact ⟨smallFile_conforms, r, w, except_toOption_eq_some.1 hr, hranges,
    except_toOption_eq_some.1 hw, hbytes⟩

theorem nodeBytes_le_iff_evenInput :
    smallFile.Conforms ∧ ∃ r, schedule F32.exact (evenInput 600) = .ok r ∧
      ∀ i a w, r.assignments[i]? = some a → w ∈ candidates (evenInput 600) →
        w.nodeId = a.nodeId → ∀ loaded,
        loadSmall a.layerRange = .ok loaded →
        (nodeBytes (evenInput 600) a.layerRange loaded ≤ w.gpuMemoryAvailable ↔
          (a.layerRange.len = 0 → chargedBytes (evenInput 600) i r.assignments.length
            a.layerRange ≤ w.gpuMemoryAvailable) ∧
          unchargedBytes i r.assignments.length fourLayers ≤ w.gpuMemoryAvailable -
            chargedBytes (evenInput 600) i r.assignments.length a.layerRange +
              a.layerRange.len * overcharge fourLayers) := by
  have hok : (schedule F32.exact (evenInput 600)).isOk = true := by decide +kernel
  obtain ⟨r, hr⟩ := except_ok_of_isOk hok
  exact ⟨smallFile_conforms, r, hr, nodeBytes_le_iff F32.exact (evenInput 600) r _ _ _ smallFile
    smallFile_conforms rfl (by decide) (by decide) hr⟩

end Layers

end Fracture
