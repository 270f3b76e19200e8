import Fracture.Core.F32
import Fracture.Engine.Model
import Mathlib.Data.List.Sort

/-!
# The layer scheduler

The coordinator gives every node of the pipeline a range of the model's
layers. It is a pure function of the workers' measured capabilities and
the model: slow nodes are pruned, layers are shared out by speed, cut to
what fits into memory and redistributed until they add up; or they are
divided evenly, or taken from an explicit list.

Byte counts are exact numbers here.
-/

namespace Fracture

variable {F : Type}

/-! ## Input and output -/

/-- Measured capabilities of a worker node. -/
structure WorkerCapabilities (F : Type) where
  nodeId : String
  gpuMemoryAvailable : ℕ
  decodeMsPerLayer : F
  prefillMsPerLayer128 : F
deriving DecidableEq, Repr

/-- Explicit layer range of a node, for manual scheduling. -/
structure ManualAssignment where
  nodeId : String
  layerRange : LayerRange
deriving DecidableEq, Repr

inductive SchedulingMode where
  | auto
  | equalSplit
  | manual (assignments : List ManualAssignment)
deriving DecidableEq, Repr

structure SchedulerInput (F : Type) where
  modelConfig : ModelConfig
  workers : List (WorkerCapabilities F)
  coordinatorCompute : Option (WorkerCapabilities F)
  mode : SchedulingMode
  maxSeqLen : ℕ
  hopLatencyMs : F

inductive NodeRole where
  | head
  | middle
  | tail
deriving DecidableEq, Repr

/-- A single node's layer assignment. -/
structure LayerAssignment (F : Type) where
  nodeId : String
  layerRange : LayerRange
  role : NodeRole
  expectedDecodeMs : F
  weightMemoryGb : F
  cacheMemoryGb : F
deriving DecidableEq, Repr

/-- A node left out because the pipeline is faster without it. -/
structure ExcludedNode (F : Type) where
  nodeId : String
  latencyWithMs : F
  latencyWithoutMs : F
deriving DecidableEq, Repr

structure SchedulerResult (F : Type) where
  assignments : List (LayerAssignment F)
  excludedNodes : List (ExcludedNode F)
  pipelineDecodeMs : F
  imbalanceRatio : F
  bottleneckNode : String
deriving DecidableEq, Repr

namespace Layers

/-! ## Memory estimation -/

/-- Bytes of a layer's weights in FP16. -/
def weightMemoryPerLayer (config : ModelConfig) : ℕ :=
  let h := config.hiddenSize
  let kvDim := config.numKvHeads * config.headDim
  let inter := config.intermediateSize
  let projBytes :=
    (h * h + h * kvDim + h * kvDim + h * h + h * inter + h * inter + inter * h) * 2
  let normBytes := h * 2 * 2
  projBytes + normBytes

/-- Bytes of a layer's keys and values in FP16, for so many tokens. -/
def cacheMemoryPerLayer (config : ModelConfig) (maxSeqLen : ℕ) : ℕ :=
  let kvDim := config.numKvHeads * config.headDim
  maxSeqLen * kvDim * 2 * 2

/-- The token embedding table. -/
def headOverhead (config : ModelConfig) : ℕ := config.vocabSize * config.hiddenSize * 2

/-- The output norm and the projection to logits. -/
def tailOverhead (config : ModelConfig) : ℕ :=
  config.hiddenSize * 2 + config.vocabSize * config.hiddenSize * 2

/-- How many layers fit. Both the subtraction and the division give 0
where they are not possible. -/
def maxLayersForNode (availableMemory perLayerTotal roleOverhead : ℕ) : ℕ :=
  (availableMemory - roleOverhead) / perLayerTotal

/-- What the `i`-th of `n` nodes keeps besides its layers. -/
def roleOverhead (i n : ℕ) (config : ModelConfig) : ℕ :=
  match i == 0, i == n - 1 with
  | true, true => headOverhead config + tailOverhead config
  | true, false => headOverhead config
  | false, true => tailOverhead config
  | false, false => 0

section

variable (f : F32 F) (input : SchedulerInput F) (candidates : List (WorkerCapabilities F))

/-- Bytes of a layer, weights and cache. -/
def perLayerTotal : ℕ :=
  weightMemoryPerLayer input.modelConfig + cacheMemoryPerLayer input.modelConfig input.maxSeqLen

/-- How many layers the `i`-th of the candidates can hold. -/
def ceiling (i : ℕ) (w : WorkerCapabilities F) : ℕ :=
  maxLayersForNode w.gpuMemoryAvailable (perLayerTotal input)
    (roleOverhead i candidates.length input.modelConfig)

/-! ## Calibration -/

/-- The measured times are numbers between 0 and 500 ms. -/
def validateCalibration (w : WorkerCapabilities F) : Except Fault Unit :=
  let id := w.nodeId
  let decode := f.display w.decodeMsPerLayer
  let prefill := f.display w.prefillMsPerLayer128
  let decode1 := f.display1 w.decodeMsPerLayer
  let prefill1 := f.display1 w.prefillMsPerLayer128
  let most := f.display0 (f.ofNat 500)
  if f.isNan w.decodeMsPerLayer || f.le w.decodeMsPerLayer (f.ofNat 0) then
    err (.pipeline s!"worker '{id}': implausible decode_ms_per_layer={decode} (must be > 0)")
  else if f.isNan w.prefillMsPerLayer128 || f.le w.prefillMsPerLayer128 (f.ofNat 0) then
    err (.pipeline
      s!"worker '{id}': implausible prefill_ms_per_layer_128={prefill} (must be > 0)")
  else if f.lt (f.ofNat 500) w.decodeMsPerLayer then
    err (.pipeline
      s!"worker '{id}': decode_ms_per_layer={decode1} exceeds maximum plausible value ({most}ms)")
  else if f.lt (f.ofNat 500) w.prefillMsPerLayer128 then
    err (.pipeline
      s!"worker '{id}': prefill_ms_per_layer_128={prefill1} exceeds maximum plausible value ({most}ms)")
  else .ok ()

/-! ## Building the result -/

/-- Where the largest element is, the last one among equals. An element
that compares with nothing counts as equal. -/
def lastMax {α : Type} (lt : α → α → Bool) (xs : List α) : Option ℕ :=
  (xs.zipIdx.foldl (fun best y =>
    match best with
    | none => some y
    | some x => if lt y.1 x.1 then some x else some y) none).map (·.2)

/-- Consecutive ranges of so many layers, from a start. -/
def assignFrom (f : F32 F) (input : SchedulerInput F) (n : ℕ) :
    ℕ → ℕ → List (WorkerCapabilities F × ℕ) → List (LayerAssignment F)
  | _, _, [] => []
  | i, start, (w, count) :: rest =>
    { nodeId := w.nodeId
      layerRange := ⟨start, start + count⟩
      role := if i == 0 then .head else if i == n - 1 then .tail else .middle
      expectedDecodeMs := f.mul (f.ofNat count) w.decodeMsPerLayer
      weightMemoryGb := f.div (f.ofNat (count * weightMemoryPerLayer input.modelConfig))
        (f.ofNat 1000000000)
      cacheMemoryGb :=
        f.div (f.ofNat (count * cacheMemoryPerLayer input.modelConfig input.maxSeqLen))
          (f.ofNat 1000000000) } ::
      assignFrom f input n (i + 1) (start + count) rest

/-- The result for so many layers of each candidate. -/
def buildResult (layerCounts : List ℕ) (excluded : List (ExcludedNode F)) :
    Except Fault (SchedulerResult F) := do
  let n := candidates.length
  let assignments := assignFrom f input n 0 0 (candidates.zip layerCounts)
  let perNodeTimes := assignments.map (·.expectedDecodeMs)
  let maxTime := perNodeTimes.foldl f.max f.least
  let minTime := (perNodeTimes.filter fun t => f.lt (f.ofNat 0) t).foldl f.min f.greatest
  let imbalanceRatio :=
    if f.lt (f.ofNat 0) minTime then f.div maxTime minTime else f.ofNat 1
  let bottleneck ← index candidates ((lastMax f.lt perNodeTimes).getD 0)
  let numHops := f.ofNat (n - 1)
  .ok
    { assignments
      excludedNodes := excluded
      pipelineDecodeMs := f.add maxTime (f.mul numHops input.hopLatencyMs)
      imbalanceRatio
      bottleneckNode := bottleneck.nodeId }

/-! ## Auto mode -/

/-- How fast a node runs a layer. -/
def speed (w : WorkerCapabilities F) : F := f.div (f.ofNat 1) w.decodeMsPerLayer

def totalSpeed : F :=
  (candidates.map (speed f)).foldl f.add (f.ofNat 0)

/-- A node's share of the layers by its speed, rounded. -/
def share (w : WorkerCapabilities F) : ℕ :=
  f.roundNat (f.mul (f.div (speed f w) (totalSpeed f candidates))
    (f.ofNat input.modelConfig.numLayers))

/-- A node's share, cut to what fits into its memory. -/
def clampedShare (w : WorkerCapabilities F) (i : ℕ) : ℕ :=
  min (share f input candidates w) (ceiling input candidates i w)

/-- The time of the slowest node under a proportional assignment, and the
network hops. -/
def estimatePipelineLatency : F :=
  let nodeTimes := candidates.zipIdx.map fun p =>
    let layers := min (clampedShare f input candidates p.1 p.2) input.modelConfig.numLayers
    f.mul (f.ofNat layers) p.1.decodeMsPerLayer
  let maxNodeTime := nodeTimes.foldl f.max (f.ofNat 0)
  let numHops := f.ofNat (candidates.length - 1)
  f.add maxNodeTime (f.mul numHops input.hopLatencyMs)

/-- Whether the bytes of all layers fit into the nodes' summed memory. -/
def modelFits : Bool :=
  let totalAvailable := (candidates.zipIdx.map fun p =>
    p.1.gpuMemoryAvailable - roleOverhead p.2 candidates.length input.modelConfig).sum
  input.modelConfig.numLayers * perLayerTotal input ≤ totalAvailable

/-- The slowest node of the candidates. -/
def slowest : ℕ :=
  (lastMax f.lt (candidates.map (·.decodeMsPerLayer))).getD 0

/-- Whether the slowest node is dropped: the model fits without it and the
pipeline is faster. -/
def prunes :
    Bool :=
  let without := candidates.eraseIdx (slowest f candidates)
  1 < candidates.length && modelFits input without &&
    f.lt (estimatePipelineLatency f input without) (estimatePipelineLatency f input candidates)

/-- Drops slow nodes, at most so many. -/
def pruneSlow (f : F32 F) (input : SchedulerInput F) :
    ℕ → List (WorkerCapabilities F) → List (ExcludedNode F) →
      List (WorkerCapabilities F) × List (ExcludedNode F)
  | 0, candidates, excluded => (candidates, excluded)
  | fuel + 1, candidates, excluded =>
    if prunes f input candidates then
      let without := candidates.eraseIdx (slowest f candidates)
      let removed := (candidates[slowest f candidates]?.map (·.nodeId)).getD ""
      pruneSlow f input fuel without (excluded ++
        [⟨removed, estimatePipelineLatency f input candidates,
          estimatePipelineLatency f input without⟩])
    else (candidates, excluded)

/-- The first of the places that a comparison prefers to all others and to
a bound, among those that qualify. -/
def pick {α : Type} (qualifies : α → ℕ → Bool) (key : α → F) (better : F → F → Bool) (bound : F)
    (xs : List α) : Option ℕ :=
  (xs.zipIdx.foldl (fun best p =>
    if qualifies p.1 p.2 && better (key p.1) best.2 then (some p.2, key p.1) else best)
    (none, bound)).1

/-- The fastest candidate with room for another layer, the first one among
equals. -/
def fastestWithRoom (layerCounts : List ℕ) : Option ℕ :=
  pick (fun w i => layerCounts.getD i 0 < ceiling input candidates i w) (speed f)
    (fun new best => f.lt best new) f.least candidates

/-- The slowest candidate that has a layer, the first one among equals. -/
def slowestWithLayers (layerCounts : List ℕ) : Option ℕ :=
  pick (fun _ i => 0 < layerCounts.getD i 0) (speed f) (fun new worst => f.lt new worst)
    f.greatest candidates

/-- Adds the missing layers one by one. -/
def addLayers (f : F32 F) (input : SchedulerInput F) (candidates : List (WorkerCapabilities F)) :
    ℕ → List ℕ → Except Fault (List ℕ)
  | 0, layerCounts => .ok layerCounts
  | missing + 1, layerCounts =>
    match fastestWithRoom f input candidates layerCounts with
    | some i => addLayers f input candidates missing (layerCounts.modify i (· + 1))
    | none =>
      let numLayers := input.modelConfig.numLayers
      let total := layerCounts.sum
      err (.pipeline
        s!"insufficient total capacity: need {numLayers} layers, can fit {total}")

/-- Takes surplus layers away one by one, as long as a node gives one. -/
def dropLayers (f : F32 F) (candidates : List (WorkerCapabilities F)) : ℕ → List ℕ → List ℕ
  | 0, layerCounts => layerCounts
  | surplus + 1, layerCounts =>
    match slowestWithLayers f candidates layerCounts with
    | some i => dropLayers f candidates surplus (layerCounts.modify i (· - 1))
    | none => layerCounts

/-- Makes the counts add up to the model's layers. -/
def redistributeLayers (layerCounts : List ℕ) : Except Fault (List ℕ) := do
  let numLayers := input.modelConfig.numLayers
  let added ← addLayers f input candidates (numLayers - layerCounts.sum) layerCounts
  let counts := dropLayers f candidates (added.sum - numLayers) added
  let total := counts.sum
  if total = numLayers then .ok counts
  else err (.pipeline s!"failed to assign all layers: assigned {total}, need {numLayers}")

/-- The shares of all candidates. -/
def clampedShares : List ℕ :=
  candidates.zipIdx.map fun p => clampedShare f input candidates p.1 p.2

def scheduleAuto : Except Fault (SchedulerResult F) := do
  let kept := pruneSlow f input candidates.length candidates []
  let layerCounts ← redistributeLayers f input kept.1 (clampedShares f input kept.1)
  buildResult f input kept.1 layerCounts kept.2

/-! ## Equal split -/

/-- The candidates by falling memory, in their order among equals. -/
def memoryOrder : List ℕ :=
  (List.range candidates.length).insertionSort fun a b =>
    (candidates[b]?.map (·.gpuMemoryAvailable)).getD 0 ≤
      (candidates[a]?.map (·.gpuMemoryAvailable)).getD 0

/-- The layers divided evenly, the rest to the nodes with most memory. -/
def equalCounts : List ℕ :=
  let n := candidates.length
  let base := input.modelConfig.numLayers / n
  let remainder := input.modelConfig.numLayers % n
  ((memoryOrder candidates).take remainder).foldl (fun counts i => counts.modify i (· + 1))
    (List.replicate n base)

/-- A node holds no more layers than fit into its memory. -/
def checkEqual (layerCounts : List ℕ) (w : WorkerCapabilities F) (i : ℕ) : Except Fault Unit :=
  let max := ceiling input candidates i w
  let count := layerCounts.getD i 0
  if max < count then
    let id := w.nodeId
    let available := f.gigabytes w.gpuMemoryAvailable
    let needed := f.gigabytes
      (count * perLayerTotal input + roleOverhead i candidates.length input.modelConfig)
    err (.pipeline
      s!"node '{id}' cannot hold {count} layers (max {max}): {available} GB available, needs {needed} GB")
  else .ok ()

def scheduleEqual : Except Fault (SchedulerResult F) := do
  let layerCounts := equalCounts input candidates
  candidates.zipIdx.forM fun p => checkEqual f input candidates layerCounts p.1 p.2
  buildResult f input candidates layerCounts []

/-! ## Manual mode -/

/-- No node is named twice. -/
def checkDuplicates : List String → List ManualAssignment → Except Fault Unit
  | _, [] => .ok ()
  | seen, a :: rest =>
    let id := a.nodeId
    if id ∈ seen then err (.pipeline s!"manual assignment has duplicate node_id '{id}'")
    else checkDuplicates (id :: seen) rest

/-- Marks the layers of a range. -/
def coverLayers : List ℕ → List Bool → Except Fault (List Bool)
  | [], covered => .ok covered
  | l :: rest, covered => do
    let taken ← index covered l
    if taken then err (.pipeline s!"manual assignment overlap at layer {l}")
    else coverLayers rest (covered.set l true)

/-- Marks the layers of every range. -/
def coverRanges (numLayers : ℕ) : List ManualAssignment → List Bool → Except Fault (List Bool)
  | [], covered => .ok covered
  | a :: rest, covered => do
    let id := a.nodeId
    let start := a.layerRange.start
    let stop := a.layerRange.stop
    if numLayers < stop then
      err (.pipeline
        s!"manual assignment for '{id}' exceeds model layers: {start}..{stop} > {numLayers}")
    else
      let covered ← coverLayers a.layerRange.layers covered
      coverRanges numLayers rest covered

/-- The layers no range covers. -/
def missingLayers (covered : List Bool) : List ℕ :=
  (covered.zipIdx.filter fun p => !p.1).map (·.2)

/-- The candidate named by each assignment, with its number of layers. -/
def matchCandidates (input : SchedulerInput F) (candidates : List (WorkerCapabilities F)) (n : ℕ) :
    ℕ → List ManualAssignment → Except Fault (List (WorkerCapabilities F × ℕ))
  | _, [] => .ok []
  | i, a :: rest =>
    let id := a.nodeId
    match candidates.find? fun w => w.nodeId == id with
    | none => err (.pipeline s!"manual assignment references unknown node '{id}'")
    | some w => do
      let max := maxLayersForNode w.gpuMemoryAvailable (perLayerTotal input)
        (roleOverhead i n input.modelConfig)
      let count := a.layerRange.len
      if max < count then
        err (.pipeline s!"node '{id}' cannot hold {count} layers (max {max})")
      else
        let others ← matchCandidates input candidates n (i + 1) rest
        .ok ((w, count) :: others)

def scheduleManual (assignments : List ManualAssignment) :
    Except Fault (SchedulerResult F) := do
  let numLayers := input.modelConfig.numLayers
  checkDuplicates [] assignments
  let covered ← coverRanges numLayers assignments (List.replicate numLayers false)
  if covered.any (!·) then
    let missing := (missingLayers covered).toString
    err (.pipeline s!"manual assignments have gaps at layers: {missing}")
  else
    let ordered ← matchCandidates input candidates assignments.length 0 assignments
    buildResult f input (ordered.map (·.1)) (ordered.map (·.2)) []

/-! ## The scheduler -/

end

/-- The nodes to schedule: the coordinator's own compute first, if any. -/
def candidates (input : SchedulerInput F) : List (WorkerCapabilities F) :=
  input.coordinatorCompute.toList ++ input.workers

/-- The candidates scheduled in the mode of the input. -/
def scheduleMode (f : F32 F) (input : SchedulerInput F) : Except Fault (SchedulerResult F) :=
  match input.mode with
  | .auto => scheduleAuto f input (candidates input)
  | .equalSplit => scheduleEqual f input (candidates input)
  | .manual assignments => scheduleManual f input (candidates input) assignments

def schedule (f : F32 F) (input : SchedulerInput F) : Except Fault (SchedulerResult F) :=
  if (candidates input).isEmpty then err (.pipeline "no workers available for scheduling")
  else do
    (candidates input).forM (validateCalibration f)
    scheduleMode f input

end Layers

end Fracture
