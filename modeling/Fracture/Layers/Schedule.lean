import Fracture.Layers.Manual

/-!
# Every schedule covers the model and fits

Each of the three modes settles on some of the candidates and a number of
layers for each of them. From there on the modes do not differ: the
ranges run from the first layer to the last without a gap, no node comes
twice, and the layers of a node fit into its memory.
-/

namespace Fracture

namespace Layers

open Effect

variable {F : Type} {f : F32 F} {input : SchedulerInput F} {r : SchedulerResult F}

/-- A result was built from settled counts for some of the candidates. -/
structure Planned (f : F32 F) (input : SchedulerInput F) (r : SchedulerResult F)
    (cs : List (WorkerCapabilities F)) (counts : List ℕ) : Prop where
  nonempty : cs ≠ []
  known : ∀ w ∈ cs, w ∈ candidates input
  distinct : ((candidates input).map (·.nodeId)).Nodup → (cs.map (·.nodeId)).Nodup
  settled : Settled input cs counts
  assignments : r.assignments = assignFrom f input cs.length 0 0 (cs.zip counts)

theorem planned_auto (hne : candidates input ≠ [])
    (h : scheduleAuto f input (candidates input) = .ok r) :
    ∃ counts, redistributeLayers f input
        (pruneSlow f input (candidates input).length (candidates input) []).1
        (clampedShares f input
          (pruneSlow f input (candidates input).length (candidates input) []).1) = .ok counts ∧
      Planned f input r
        (pruneSlow f input (candidates input).length (candidates input) []).1 counts := by
  obtain ⟨counts, hcounts, hbuild⟩ := scheduleAuto_eq_ok h
  have hsub : (pruneSlow f input (candidates input).length (candidates input) []).1.Sublist
      (candidates input) ∧ _ := pruneSlow_sublist _ _ _ hne
  exact ⟨counts, hcounts,
    { nonempty := hsub.2
      known := fun _ hw => hsub.1.subset hw
      distinct := fun hnodup => hnodup.sublist (hsub.1.map _)
      settled := settled_auto hcounts
      assignments := (buildResult_eq_ok hbuild).2 }⟩

theorem planned_equal (h : scheduleEqual f input (candidates input) = .ok r) :
    Planned f input r (candidates input) (equalCounts input (candidates input)) := by
  obtain ⟨hne, hassign⟩ := buildResult_eq_ok (scheduleEqual_eq_ok h).2
  exact
    { nonempty := hne
      known := fun _ hw => hw
      distinct := fun hnodup => hnodup
      settled := settled_equal h
      assignments := hassign }

theorem planned_manual {manual : List ManualAssignment}
    (h : scheduleManual f input (candidates input) manual = .ok r) :
    ∃ ordered, Accepted input (candidates input) manual ordered ∧
      Planned f input r (ordered.map (·.1)) (ordered.map (·.2)) := by
  obtain ⟨ordered, hacc, hbuild⟩ := scheduleManual_eq_ok h
  obtain ⟨hne, hassign⟩ := buildResult_eq_ok hbuild
  have hids : (ordered.map (·.1)).map (·.nodeId) = manual.map (·.nodeId) := by
    rw [List.map_map]
    exact hacc.map_nodeId
  refine ⟨ordered, hacc,
    { nonempty := hne
      known := fun w hw => ?_
      distinct := fun _ => hids ▸ hacc.distinct
      settled := hacc.settled
      assignments := hassign }⟩
  obtain ⟨p, hp, rfl⟩ := List.mem_map.mp hw
  obtain ⟨a, -, hmatch⟩ := Rows.exists_left hacc.matched hp
  exact hmatch.1

/-- **Every schedule is a plan**, whatever the mode. -/
theorem exists_planned (h : schedule f input = .ok r) : ∃ cs counts, Planned f input r cs counts := by
  obtain ⟨hne, -, h⟩ := schedule_eq_ok h
  unfold scheduleMode at h
  cases hmode : input.mode with
  | auto =>
    rw [hmode] at h
    obtain ⟨counts, -, hplan⟩ := planned_auto hne h
    exact ⟨_, counts, hplan⟩
  | equalSplit =>
    rw [hmode] at h
    exact ⟨_, _, planned_equal h⟩
  | manual assignments =>
    rw [hmode] at h
    obtain ⟨ordered, -, hplan⟩ := planned_manual h
    exact ⟨_, _, hplan⟩

section

variable {cs : List (WorkerCapabilities F)} {counts : List ℕ} (h : Planned f input r cs counts)
include h

theorem Planned.length_zip :
    (cs.zip counts).length = cs.length := by
  rw [List.length_zip, h.settled.length, Nat.min_self]

theorem Planned.length :
    r.assignments.length = cs.length := by
  rw [h.assignments, ← (forall₂_assignFrom ..).length_eq, h.length_zip]

/-- The assignment at a place is that of the candidate and of the count
there. -/
theorem Planned.getElem? {i : ℕ} {a : LayerAssignment F} (ha : r.assignments[i]? = some a) :
    ∃ w, cs[i]? = some w ∧ a.nodeId = w.nodeId ∧ a.layerRange.len = counts.getD i 0 := by
  rw [h.assignments] at ha
  obtain ⟨p, hp, hid, hlen⟩ := Rows.getElem?_left (forall₂_assignFrom ..) ha
  obtain ⟨hw, hcount⟩ := List.getElem?_zip_eq_some.mp hp
  refine ⟨p.1, hw, hid, ?_⟩
  rw [hlen, List.getD_eq_getElem?_getD, hcount]
  rfl

theorem Planned.spans :
    Spans 0 (r.assignments.map (·.layerRange)) input.modelConfig.numLayers := by
  have hspans : Spans 0 ((assignFrom f input cs.length 0 0 (cs.zip counts)).map (·.layerRange))
      (0 + ((cs.zip counts).map (·.2)).sum) := spans_assignFrom _ _ _ _
  have hcounts : (cs.zip counts).map (·.2) = counts :=
    List.map_snd_zip (Nat.le_of_eq h.settled.length)
  rwa [hcounts, Nat.zero_add, h.settled.total, ← h.assignments] at hspans

theorem Planned.map_nodeId :
    r.assignments.map (·.nodeId) = cs.map (·.nodeId) := by
  rw [h.assignments, map_nodeId_assignFrom]
  have hfst : (cs.zip counts).map (·.1) = cs :=
    List.map_fst_zip (Nat.le_of_eq h.settled.length.symm)
  conv_rhs => rw [← hfst]
  rw [List.map_map]
  rfl

/-- A node that is given layers has the memory for them. -/
theorem Planned.memory (hdistinct : ((candidates input).map (·.nodeId)).Nodup) {i : ℕ}
    {a : LayerAssignment F} {w : WorkerCapabilities F} (ha : r.assignments[i]? = some a)
    (hw : w ∈ candidates input) (hid : w.nodeId = a.nodeId) (hpos : 0 < a.layerRange.len) :
    a.layerRange.len * perLayerTotal input +
      roleOverhead i r.assignments.length input.modelConfig ≤ w.gpuMemoryAvailable := by
  obtain ⟨v, hv, hvid, hlen⟩ := h.getElem? ha
  -- the candidate of that name is the one the layers were counted for
  have hvw : v = w := List.inj_on_of_nodup_map hdistinct
    (h.known v (List.mem_of_getElem? hv)) hw (hvid.symm.trans hid.symm)
  have hfits := h.settled.fits i v hv
  rw [← hlen] at hfits
  have hmem := memory_of_le_ceiling hpos hfits
  rwa [hvw, ← h.length] at hmem

end

/-- **A schedule covers the model and fits.** Whenever the scheduler
returns a result, the ranges run from layer 0 to the last without gap or
overlap. Where the candidates are distinct, so are the nodes, and a node
that is given layers has the memory for them and for what its role keeps.
Nothing is asked of the floating point arithmetic. -/
theorem schedule_sound (f : F32 F) (input : SchedulerInput F) {r : SchedulerResult F}
    (h : schedule f input = .ok r) :
    Spans 0 (r.assignments.map (·.layerRange)) input.modelConfig.numLayers ∧
      (((candidates input).map (·.nodeId)).Nodup →
        (r.assignments.map (·.nodeId)).Nodup ∧
        ∀ i a w, r.assignments[i]? = some a → w ∈ candidates input → w.nodeId = a.nodeId →
          0 < a.layerRange.len →
          a.layerRange.len * perLayerTotal input +
            roleOverhead i r.assignments.length input.modelConfig ≤ w.gpuMemoryAvailable) := by
  obtain ⟨cs, counts, hplan⟩ := exists_planned h
  exact ⟨hplan.spans, fun hdistinct => ⟨hplan.map_nodeId ▸ hplan.distinct hdistinct,
    fun _ _ _ ha hw hid hpos => hplan.memory hdistinct ha hw hid hpos⟩⟩

/-- Three workers of different speed and memory. -/
def autoInput : SchedulerInput ℚ :=
  { modelConfig := fourLayers,
    workers := [⟨"w1", 600, 1, 1⟩, ⟨"w2", 1200, 2, 1⟩, ⟨"w3", 2000, 3, 1⟩],
    coordinatorCompute := none, mode := .auto, maxSeqLen := 64, hopLatencyMs := 0 }

theorem schedule_sound_autoInput :
    ∃ r, schedule F32.exact autoInput = .ok r ∧
      Spans 0 (r.assignments.map (·.layerRange)) 4 ∧ (r.assignments.map (·.nodeId)).Nodup ∧
      ∀ i a w, r.assignments[i]? = some a → w ∈ candidates autoInput → w.nodeId = a.nodeId →
        0 < a.layerRange.len →
        a.layerRange.len * perLayerTotal autoInput +
          roleOverhead i r.assignments.length fourLayers ≤ w.gpuMemoryAvailable := by
  have hok : (schedule F32.exact autoInput).isOk = true := by decide +kernel
  obtain ⟨r, hr⟩ := except_ok_of_isOk hok
  obtain ⟨hspans, hdistinct⟩ := schedule_sound F32.exact autoInput hr
  exact ⟨r, hr, hspans, hdistinct (by decide)⟩

end Layers

end Fracture
