import Fracture.Layers.Redistribution

/-!
# Nodes without layers

The scheduler may assign a node no layers at all: a slow node whose share
rounds to nothing, more nodes than layers, an empty range in a manual
list. The pipeline that is built from the schedule, and the node
configuration every worker builds from its range, accept no empty range.
-/

namespace Fracture

/-- A pipeline of workers, each with its layers. -/
structure DistributedPipeline where
  pipelineOrder : List String
  hiddenSize : ℕ
  totalLayers : ℕ
  allocatedSeqs : List ℕ
deriving DecidableEq, Repr

namespace Layers

open Effect

variable {F : Type} {f : F32 F} {input : SchedulerInput F} {r : SchedulerResult F}

/-- The ranges follow each other and none is empty. Gives the last layer. -/
def checkRanges : ℕ → List (LayerAssignment F) → Except Fault ℕ
  | expectedStart, [] => .ok expectedStart
  | expectedStart, a :: rest =>
    let id := a.nodeId
    let start := a.layerRange.start
    let stop := a.layerRange.stop
    if start ≠ expectedStart then
      err (.pipeline
        s!"non-contiguous layer ranges: expected start {expectedStart}, got {start}")
    else if stop ≤ start then
      err (.pipeline s!"empty layer range for '{id}': {start}..{stop}")
    else checkRanges stop rest

end Layers

/-- The pipeline of a schedule. -/
def DistributedPipeline.new {F : Type} (assignments : List (LayerAssignment F)) (hiddenSize : ℕ) :
    Except Fault DistributedPipeline :=
  if assignments.isEmpty then err (.pipeline "no assignments for distributed pipeline")
  else do
    let totalLayers ← Layers.checkRanges 0 assignments
    .ok { pipelineOrder := assignments.map (·.nodeId), hiddenSize, totalLayers,
          allocatedSeqs := [] }

namespace Layers

open Effect

variable {F : Type} {f : F32 F} {input : SchedulerInput F} {r : SchedulerResult F}

/-! ## Empty ranges are not accepted -/

theorem Spans.stop_le {start stop : ℕ} {rs : List LayerRange} (h : Spans start rs stop) :
    start ≤ stop ∧ ∀ r ∈ rs, r.stop ≤ stop := by
  induction rs generalizing start with
  | nil => exact ⟨Nat.le_of_eq h, List.forall_mem_nil _⟩
  | cons r rs ih =>
    obtain ⟨hstart, hle, hrest⟩ := h
    obtain ⟨hstop, hall⟩ := ih hrest
    refine ⟨by omega, fun r' hr' => ?_⟩
    rcases List.mem_cons.mp hr' with rfl | hr'
    · exact hstop
    · exact hall r' hr'

theorem len_pos_iff {r : LayerRange} : 0 < r.len ↔ r.start < r.stop := Nat.sub_pos_iff_lt

/-- Consecutive ranges are accepted when none is empty. -/
theorem checkRanges_eq_ok {start stop : ℕ} {as : List (LayerAssignment F)}
    (h : Spans start (as.map (·.layerRange)) stop) :
    (∃ total, checkRanges start as = .ok total) ↔ ∀ a ∈ as, 0 < a.layerRange.len := by
  induction as generalizing start with
  | nil => exact ⟨fun _ _ ha => absurd ha List.not_mem_nil, fun _ => ⟨start, rfl⟩⟩
  | cons a as ih =>
    obtain ⟨hstart, hle, hrest⟩ := h
    unfold checkRanges
    dsimp only
    rw [if_neg (by simpa using hstart), List.forall_mem_cons, len_pos_iff]
    split
    · rename_i hempty
      constructor
      · rintro ⟨_, ⟨⟩⟩
      · intro hall
        omega
    · rename_i hfull
      rw [ih hrest]
      exact ⟨fun hall => ⟨by omega, hall⟩, fun hall => hall.2⟩

theorem exists_pipeline_iff (h : schedule f input = .ok r) (hiddenSize : ℕ) :
    (∃ p, DistributedPipeline.new r.assignments hiddenSize = .ok p) ↔
      ∀ a ∈ r.assignments, 0 < a.layerRange.len := by
  obtain ⟨cs, counts, hplan⟩ := exists_planned h
  have hne : r.assignments.isEmpty = false := by
    rw [List.isEmpty_eq_false_iff, ← List.length_pos_iff, hplan.length]
    exact List.length_pos_iff.mpr hplan.nonempty
  rw [← checkRanges_eq_ok hplan.spans]
  unfold DistributedPipeline.new
  rw [hne]
  constructor
  · rintro ⟨p, hp⟩
    obtain ⟨total, htotal, -⟩ := except_bind_eq_ok.mp hp
    exact ⟨total, htotal⟩
  · rintro ⟨total, htotal⟩
    exact ⟨_, except_bind_eq_ok.mpr ⟨total, htotal, rfl⟩⟩

theorem exists_nodeConfig_iff (h : schedule f input = .ok r) {a : LayerAssignment F}
    (ha : a ∈ r.assignments) :
    (∃ c, NodeConfig.new a.layerRange input.modelConfig.numLayers = .ok c) ↔
      0 < a.layerRange.len := by
  obtain ⟨cs, counts, hplan⟩ := exists_planned h
  have hstop := hplan.spans.stop_le.2 a.layerRange (List.mem_map.mpr ⟨a, ha, rfl⟩)
  rw [len_pos_iff]
  unfold NodeConfig.new
  split
  · rename_i hlt
    exact ⟨fun _ => hlt, fun _ => ⟨_, rfl⟩⟩
  · rename_i hempty
    constructor
    · rintro ⟨_, ⟨⟩⟩
    · exact fun hlt => absurd hlt hempty

/-! ## Which schedules give every node a layer -/

/-- The nodes that auto mode keeps. -/
def keptNodes (f : F32 F) (input : SchedulerInput F) : List (WorkerCapabilities F) :=
  (pruneSlow f input (candidates input).length (candidates input) []).1

/-- In auto mode every node that is kept has a share that survives, or
room when the faster nodes are full; an equal split has no more nodes
than layers; a manual list has no empty range. -/
def Staffed (f : F32 F) (input : SchedulerInput F) : Prop :=
  match input.mode with
  | .auto => ∀ i < (keptNodes f input).length, GetsLayer f input (keptNodes f input) i
  | .equalSplit => (candidates input).length ≤ input.modelConfig.numLayers
  | .manual manual => ∀ m ∈ manual, m.layerRange.start < m.layerRange.stop

/-- A node's layers are its count. -/
theorem Planned.pos_iff {cs : List (WorkerCapabilities F)} {counts : List ℕ}
    (h : Planned f input r cs counts) :
    (∀ a ∈ r.assignments, 0 < a.layerRange.len) ↔ ∀ i < cs.length, 0 < counts.getD i 0 := by
  constructor
  · intro hall i hi
    have hlt : i < r.assignments.length := h.length ▸ hi
    have hget := List.getElem?_eq_getElem hlt
    obtain ⟨w, -, -, hlen⟩ := h.getElem? hget
    rw [← hlen]
    exact hall _ (List.mem_of_getElem? hget)
  · intro hall a ha
    obtain ⟨i, hi⟩ := List.mem_iff_getElem?.mp ha
    obtain ⟨w, hw, -, hlen⟩ := h.getElem? hi
    rw [hlen]
    exact hall i (List.getElem?_eq_some_iff.mp hw).1

theorem foldl_modify_succ_le (places : List ℕ) (counts : List ℕ) (i : ℕ) :
    counts.getD i 0 ≤
      (places.foldl (fun counts i => counts.modify i (· + 1)) counts).getD i 0 := by
  induction places generalizing counts with
  | nil => exact le_rfl
  | cons j places ih =>
    exact (Tally.getD_le_modify_succ counts j i).trans (ih _)

/-- An equal split leaves a node empty when there are more nodes than
layers. -/
theorem pos_equalCounts_iff {cs : List (WorkerCapabilities F)} (hcs : cs ≠ []) :
    (∀ i < cs.length, 0 < (equalCounts input cs).getD i 0) ↔
      cs.length ≤ input.modelConfig.numLayers := by
  have hpos : 0 < cs.length := List.length_pos_iff.mpr hcs
  constructor
  · intro hall
    have hsum : (equalCounts input cs).sum = input.modelConfig.numLayers := sum_equalCounts hcs
    rw [Tally.sum_eq_sum_range, length_equalCounts] at hsum
    calc cs.length = ∑ _i ∈ Finset.range cs.length, 1 := by simp
      _ ≤ ∑ i ∈ Finset.range cs.length, (equalCounts input cs).getD i 0 :=
        Finset.sum_le_sum fun i hi => hall i (Finset.mem_range.mp hi)
      _ = input.modelConfig.numLayers := hsum
  · intro hle i hi
    have hbase : 0 < input.modelConfig.numLayers / cs.length := Nat.div_pos hle hpos
    have hgrow := foldl_modify_succ_le
      ((memoryOrder cs).take (input.modelConfig.numLayers % cs.length))
      (List.replicate cs.length (input.modelConfig.numLayers / cs.length)) i
    rw [List.getD_eq_getElem _ _ (by rwa [List.length_replicate]), List.getElem_replicate] at hgrow
    exact lt_of_lt_of_le hbase hgrow

/-- **Which schedules give every node a layer.** -/
theorem pos_iff_staffed (hf : f.Lawful) (h : schedule f input = .ok r) :
    (∀ a ∈ r.assignments, 0 < a.layerRange.len) ↔ Staffed f input := by
  obtain ⟨hne, hvalid, h⟩ := schedule_eq_ok h
  unfold scheduleMode at h
  unfold Staffed
  cases hmode : input.mode with
  | auto =>
    rw [hmode] at h
    obtain ⟨counts, hcounts, hplan⟩ := planned_auto hne h
    have hs : SaneSpeeds f (keptNodes f input) :=
      saneSpeeds hf fun w hw => hvalid w (hplan.known w hw)
    rw [hplan.pos_iff]
    exact forall₂_congr fun i hi => pos_iff_getsLayer hf hs hcounts hi
  | equalSplit =>
    rw [hmode] at h
    rw [(planned_equal h).pos_iff]
    exact pos_equalCounts_iff hne
  | manual manual =>
    rw [hmode] at h
    obtain ⟨ordered, hacc, hplan⟩ := planned_manual h
    rw [hplan.pos_iff]
    constructor
    · intro hall m hm
      obtain ⟨p, hp, hmatch⟩ := Rows.exists_right hacc.matched hm
      obtain ⟨k, hk, rfl⟩ := List.mem_iff_getElem.mp hp
      have hpos := hall k (by rwa [List.length_map])
      rw [List.getD_eq_getElem _ _ (by rwa [List.length_map]), List.getElem_map] at hpos
      rw [← len_pos_iff, ← hmatch.2.2]
      exact hpos
    · intro hall k hk
      rw [List.length_map] at hk
      obtain ⟨m, hm, hmatch⟩ := Rows.exists_left hacc.matched (List.getElem_mem hk)
      rw [List.getD_eq_getElem _ _ (by rwa [List.length_map]), List.getElem_map, hmatch.2.2,
        len_pos_iff]
      exact hall m hm

/-- **A schedule is accepted exactly when every node gets a layer.** Where
the scheduler returns a result, every node has a layer, the pipeline can
be built and every worker takes its range if and only if the input is
staffed. -/
theorem accepted_iff_staffed (f : F32 F) (hf : f.Lawful) (input : SchedulerInput F)
    {r : SchedulerResult F} (h : schedule f input = .ok r) (hiddenSize : ℕ) :
    ((∀ a ∈ r.assignments, 0 < a.layerRange.len) ∧
      (∃ p, DistributedPipeline.new r.assignments hiddenSize = .ok p) ∧
      ∀ a ∈ r.assignments,
        ∃ c, NodeConfig.new a.layerRange input.modelConfig.numLayers = .ok c) ↔
      Staffed f input := by
  rw [exists_pipeline_iff h, ← pos_iff_staffed hf h]
  exact ⟨fun hall => hall.1, fun hall =>
    ⟨hall, hall, fun a ha => (exists_nodeConfig_iff h ha).mpr (hall a ha)⟩⟩

/-- Three workers for a model of two layers. -/
def crowded : SchedulerInput ℚ :=
  { modelConfig := { fourLayers with numLayers := 2 },
    workers := [ampleWorker "w1", ampleWorker "w2", ampleWorker "w3"],
    coordinatorCompute := none, mode := .equalSplit, maxSeqLen := 64, hopLatencyMs := 2 }

/-- The third worker is assigned no layer, and no pipeline can be built
from the schedule. -/
theorem idle_node :
    (schedule F32.exact crowded).toOption.map
      (fun r => (r.assignments.map (·.layerRange),
        (DistributedPipeline.new r.assignments 1).isOk)) =
        some ([⟨0, 1⟩, ⟨1, 2⟩, ⟨2, 2⟩], false) := by
  decide +kernel

theorem accepted_iff_staffed_autoInput :
    ∃ r, schedule F32.exact autoInput = .ok r ∧
      (((∀ a ∈ r.assignments, 0 < a.layerRange.len) ∧
        (∃ p, DistributedPipeline.new r.assignments 1 = .ok p) ∧
        ∀ a ∈ r.assignments, ∃ c, NodeConfig.new a.layerRange 4 = .ok c) ↔
        Staffed F32.exact autoInput) := by
  have hok : (schedule F32.exact autoInput).isOk = true := by decide +kernel
  obtain ⟨r, hr⟩ := except_ok_of_isOk hok
  exact ⟨r, hr, accepted_iff_staffed F32.exact F32.exact_lawful autoInput hr 1⟩

end Layers

end Fracture
