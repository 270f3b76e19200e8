import Fracture.Layers.Counts

/-!
# Manual schedules

An explicit list of ranges is checked as a set of layers: no layer twice,
none left out. The result is built from the lengths of the ranges in the
order of the list. So the requested ranges are assigned when the list
gives them in the order of the layers, and otherwise they are not.
-/

namespace Fracture

namespace Layers

open Effect

variable {F : Type} {f : F32 F} {input : SchedulerInput F}
  {cs : List (WorkerCapabilities F)} {manual : List ManualAssignment}

/-! ## The checks -/

theorem nodup_of_checkDuplicates {seen : List String} (h : checkDuplicates seen manual = .ok ()) :
    (manual.map (·.nodeId)).Nodup ∧ ∀ a ∈ manual, a.nodeId ∉ seen := by
  induction manual generalizing seen with
  | nil => exact ⟨.nil, List.forall_mem_nil _⟩
  | cons a manual ih =>
    unfold checkDuplicates at h
    dsimp only at h
    split at h
    · cases h
    · rename_i hseen
      obtain ⟨hnodup, hfresh⟩ := ih h
      constructor
      · refine List.nodup_cons.mpr ⟨fun hmem => ?_, hnodup⟩
        obtain ⟨b, hb, hid⟩ := List.mem_map.mp hmem
        exact hfresh b hb (hid ▸ .head _)
      · intro b hb
        rcases List.mem_cons.mp hb with rfl | hb
        · exact hseen
        · exact fun hmem => hfresh b hb (.tail _ hmem)

variable {covered covered' : List Bool}

/-- Every layer of a range is marked once more. -/
theorem count_coverLayers {ls : List ℕ} (h : coverLayers ls covered = .ok covered') :
    covered'.length = covered.length ∧
      covered'.count true = covered.count true + ls.length := by
  induction ls generalizing covered with
  | nil =>
    cases h
    exact ⟨rfl, rfl⟩
  | cons l ls ih =>
    obtain ⟨taken, hl, h⟩ := except_bind_eq_ok.mp h
    cases taken with
    | true => cases h
    | false =>
      rw [index_eq_ok] at hl
      obtain ⟨hlt, hget⟩ := List.getElem?_eq_some_iff.mp hl
      obtain ⟨hlen, hcount⟩ := ih h
      refine ⟨hlen.trans List.length_set, ?_⟩
      have hset : (covered.set l true).count true = covered.count true + 1 := by
        rw [List.count_set hlt, hget]
        rfl
      rw [hcount, hset, List.length_cons]
      omega

theorem count_coverRanges {numLayers : ℕ} (h : coverRanges numLayers manual covered = .ok covered') :
    covered'.length = covered.length ∧
      covered'.count true = covered.count true + (manual.map (·.layerRange.len)).sum := by
  induction manual generalizing covered with
  | nil =>
    cases h
    exact ⟨rfl, rfl⟩
  | cons a manual ih =>
    unfold coverRanges at h
    dsimp only at h
    split at h
    · cases h
    · obtain ⟨marked, hmark, h⟩ := except_bind_eq_ok.mp h
      obtain ⟨hlen, hcount⟩ := count_coverLayers hmark
      obtain ⟨hlen', hcount'⟩ := ih h
      refine ⟨hlen'.trans hlen, ?_⟩
      have hlayers : a.layerRange.layers.length = a.layerRange.len := List.length_range'
      rw [hcount', hcount, hlayers, List.map_cons, List.sum_cons, Nat.add_assoc]

variable {ordered : List (WorkerCapabilities F × ℕ)}

/-- Each assignment finds its candidate, which holds its layers. -/
theorem matchCandidates_eq_ok {n i : ℕ} (h : matchCandidates input cs n i manual = .ok ordered) :
    List.Forall₂ (fun a p => p.1 ∈ cs ∧ p.1.nodeId = a.nodeId ∧ p.2 = a.layerRange.len)
        manual ordered ∧
      ∀ k p, ordered[k]? = some p → p.2 ≤ maxLayersForNode p.1.gpuMemoryAvailable
        (perLayerTotal input) (roleOverhead (i + k) n input.modelConfig) := by
  induction manual generalizing i ordered with
  | nil =>
    cases h
    exact ⟨.nil, fun k p hp => absurd hp (by simp)⟩
  | cons a manual ih =>
    unfold matchCandidates at h
    dsimp only at h
    cases hfind : cs.find? fun w => w.nodeId == a.nodeId with
    | none =>
      rw [hfind] at h
      cases h
    | some w =>
      rw [hfind] at h
      dsimp only at h
      split at h
      · cases h
      · rename_i hmax
        obtain ⟨others, hothers, h⟩ := except_bind_eq_ok.mp h
        cases h
        obtain ⟨hall, hceil⟩ := ih hothers
        have hid : w.nodeId = a.nodeId := by simpa using List.find?_some hfind
        refine ⟨.cons ⟨List.mem_of_find?_eq_some hfind, hid, rfl⟩ hall, ?_⟩
        intro k p hp
        cases k with
        | zero =>
          cases hp
          exact Nat.not_lt.mp hmax
        | succ k =>
          have hk := hceil k p hp
          rwa [show i + 1 + k = i + (k + 1) by omega] at hk

/-- What an accepted list of ranges gives. -/
structure Accepted (input : SchedulerInput F) (cs : List (WorkerCapabilities F))
    (manual : List ManualAssignment) (ordered : List (WorkerCapabilities F × ℕ)) : Prop where
  distinct : (manual.map (·.nodeId)).Nodup
  matched : List.Forall₂ (fun a p => p.1 ∈ cs ∧ p.1.nodeId = a.nodeId ∧ p.2 = a.layerRange.len)
    manual ordered
  settled : Settled input (ordered.map (·.1)) (ordered.map (·.2))

theorem Accepted.map_nodeId (h : Accepted input cs manual ordered) :
    ordered.map (·.1.nodeId) = manual.map (·.nodeId) :=
  Rows.map_eq_map h.matched.flip fun _ _ hp => hp.2.1

variable {r : SchedulerResult F}

theorem scheduleManual_eq_ok (h : scheduleManual f input cs manual = .ok r) :
    ∃ ordered, Accepted input cs manual ordered ∧
      buildResult f input (ordered.map (·.1)) (ordered.map (·.2)) [] = .ok r := by
  obtain ⟨_, hdup, h⟩ := except_bind_eq_ok.mp h
  obtain ⟨covered, hcover, h⟩ := except_bind_eq_ok.mp h
  split at h
  · cases h
  rename_i hgaps
  obtain ⟨ordered, hmatch, h⟩ := except_bind_eq_ok.mp h
  obtain ⟨hlen, hcount⟩ := count_coverRanges hcover
  obtain ⟨hall, hceil⟩ := matchCandidates_eq_ok hmatch
  have hlength : ordered.length = manual.length := hall.length_eq.symm
  have hcounts : ordered.map (·.2) = manual.map (·.layerRange.len) :=
    Rows.map_eq_map hall.flip fun _ _ hp => hp.2.2
  refine ⟨ordered, ⟨(nodup_of_checkDuplicates hdup).1, hall, ⟨?_, ?_, ?_⟩⟩, h⟩
  · rw [List.length_map, List.length_map]
  · intro i w hw
    rw [List.getElem?_map, Option.map_eq_some_iff] at hw
    obtain ⟨p, hp, rfl⟩ := hw
    have hle := hceil i p hp
    rw [Nat.zero_add, ← hlength] at hle
    have hget : (ordered.map (·.2)).getD i 0 = p.2 := by
      simp [List.getD_eq_getElem?_getD, hp]
    rw [hget, ceiling, List.length_map]
    exact hle
  · -- all layers are marked, each by one range
    have hfull : covered.count true = covered.length := by
      refine List.count_eq_length.mpr fun b hb => ?_
      cases b with
      | true => rfl
      | false => exact absurd (List.any_eq_true.mpr ⟨false, hb, rfl⟩) hgaps
    rw [hcounts]
    rw [hfull, hlen, List.length_replicate] at hcount
    simp only [List.count_replicate, beq_iff_eq, Bool.false_eq_true, if_false] at hcount
    omega

/-! ## The requested ranges -/

/-- Consecutive ranges are known by their lengths. -/
theorem Spans.ext {start stop stop' : ℕ} {rs rs' : List LayerRange} (h : Spans start rs stop)
    (h' : Spans start rs' stop') (hlen : rs.map (·.len) = rs'.map (·.len)) : rs = rs' := by
  induction rs generalizing start rs' with
  | nil =>
    cases rs' with
    | nil => rfl
    | cons r' rs' => cases hlen
  | cons r rs ih =>
    cases rs' with
    | nil => cases hlen
    | cons r' rs' =>
      obtain ⟨hstart, hle, hrest⟩ := h
      obtain ⟨hstart', hle', hrest'⟩ := h'
      obtain ⟨hr, htail⟩ := List.cons.inj hlen
      have hstop : r.stop = r'.stop := by
        simp only [LayerRange.len] at hr
        omega
      have hrr : r = r' := by
        cases r
        cases r'
        simp_all
      rw [hrr, ih hrest (hstop ▸ hrest') htail]

/-- The nodes of a manual schedule, in the order of the list, with
consecutive ranges of the requested lengths. -/
theorem Accepted.assignments (h : Accepted input cs manual ordered)
    (hbuild : buildResult f input (ordered.map (·.1)) (ordered.map (·.2)) [] = .ok r) :
    r.assignments.map (·.nodeId) = manual.map (·.nodeId) ∧
      r.assignments.map (·.layerRange.len) = manual.map (·.layerRange.len) ∧
      Spans 0 (r.assignments.map (·.layerRange)) input.modelConfig.numLayers := by
  have hzip : (ordered.map (·.1)).zip (ordered.map (·.2)) = ordered := by
    rw [List.zip_map', List.map_id'']
    exact fun _ => rfl
  have hassign := (buildResult_eq_ok hbuild).2
  rw [hzip] at hassign
  rw [hassign]
  refine ⟨?_, ?_, ?_⟩
  · rw [map_nodeId_assignFrom, h.map_nodeId]
  · have hlens : (assignFrom f input (ordered.map (·.1)).length 0 0 ordered).map
        (·.layerRange.len) = ordered.map (·.2) :=
      Rows.map_eq_map (forall₂_assignFrom ..).flip fun _ _ hp => hp.2
    rw [hlens]
    exact Rows.map_eq_map h.matched.flip fun _ _ hp => hp.2.2
  · have hspans : Spans 0 ((assignFrom f input (ordered.map (·.1)).length 0 0 ordered).map
        (·.layerRange)) (0 + (ordered.map (·.2)).sum) := spans_assignFrom _ _ _ _
    rwa [Nat.zero_add, h.settled.total] at hspans

/-- **The requested ranges are assigned exactly when they are listed in
the order of the layers**, each from where the one before it ends. -/
theorem manual_exact (f : F32 F) (input : SchedulerInput F) {manual : List ManualAssignment}
    (hmode : input.mode = .manual manual) {r : SchedulerResult F} (h : schedule f input = .ok r) :
    (∀ m ∈ manual, ∃ a ∈ r.assignments, a.nodeId = m.nodeId ∧ a.layerRange = m.layerRange) ↔
      Spans 0 (manual.map (·.layerRange)) input.modelConfig.numLayers := by
  obtain ⟨-, -, hmanual⟩ := schedule_eq_ok h
  rw [scheduleMode, hmode] at hmanual
  obtain ⟨ordered, hacc, hbuild⟩ := scheduleManual_eq_ok hmanual
  obtain ⟨hids, hlens, hspans⟩ := hacc.assignments hbuild
  constructor
  · intro hexact
    -- a node is named once, so the range found under its name is its own
    have hranges : r.assignments.map (·.layerRange) = manual.map (·.layerRange) := by
      refine List.ext_getElem? fun k => ?_
      rw [List.getElem?_map, List.getElem?_map]
      have hk := congrArg (·[k]?) hids
      simp only [List.getElem?_map] at hk
      cases hm : manual[k]? with
      | none =>
        rw [hm, Option.map_none, Option.map_eq_none_iff] at hk
        rw [hk]
        rfl
      | some m =>
        obtain ⟨a, ha, hid, hrange⟩ := hexact m (List.mem_of_getElem? hm)
        obtain ⟨k', hk'⟩ := List.mem_iff_getElem?.mp ha
        have hsame : k' = k := by
          have hlt : k' < (r.assignments.map (·.nodeId)).length := by
            rw [List.length_map]
            exact (List.getElem?_eq_some_iff.mp hk').1
          refine (List.getElem?_inj hlt (hids ▸ hacc.distinct)).mp ?_
          rw [List.getElem?_map, List.getElem?_map, hk', hk, hm]
          exact congrArg some hid
        rw [← hsame, hk']
        exact congrArg some hrange
    rwa [hranges] at hspans
  · intro hlist m hm
    have hranges : r.assignments.map (·.layerRange) = manual.map (·.layerRange) := by
      refine hspans.ext hlist ?_
      rw [List.map_map, List.map_map]
      exact hlens
    obtain ⟨k, hk⟩ := List.mem_iff_getElem?.mp hm
    have hid := congrArg (·[k]?) hids
    have hrange := congrArg (·[k]?) hranges
    simp only [List.getElem?_map, hk, Option.map_some] at hid hrange
    obtain ⟨a, ha, haid⟩ := Option.map_eq_some_iff.mp hid
    rw [ha] at hrange
    exact ⟨a, List.mem_of_getElem? ha, haid, Option.some.inj hrange⟩

/-! ## Two workers -/

/-- A model of four small layers. -/
def fourLayers : ModelConfig :=
  { hiddenSize := 1, numLayers := 4, numQHeads := 1, numKvHeads := 1, headDim := 1,
    intermediateSize := 1, vocabSize := 1, ropeTheta := 1, rmsNormEps := 1, maxSeqLen := 64 }

/-- A worker with room for every layer. -/
def ampleWorker (nodeId : String) : WorkerCapabilities ℚ := ⟨nodeId, 10000, 1, 1⟩

def manualInput (manual : List ManualAssignment) : SchedulerInput ℚ :=
  { modelConfig := fourLayers, workers := [ampleWorker "w1", ampleWorker "w2"],
    coordinatorCompute := none, mode := .manual manual, maxSeqLen := 64, hopLatencyMs := 2 }

/-- The first worker's range is listed last. -/
def swapped : List ManualAssignment := [⟨"w2", ⟨2, 4⟩⟩, ⟨"w1", ⟨0, 2⟩⟩]

/-- Each of the two workers gets the range requested for the other. -/
theorem swapped_ranges :
    (schedule F32.exact (manualInput swapped)).toOption.map
      (fun r => r.assignments.map fun a => (a.nodeId, a.layerRange)) =
        some [("w2", ⟨0, 2⟩), ("w1", ⟨2, 4⟩)] := by
  decide +kernel

def inOrder : List ManualAssignment := [⟨"w1", ⟨0, 1⟩⟩, ⟨"w2", ⟨1, 4⟩⟩]

theorem manual_exact_inOrder :
    ∃ r, schedule F32.exact (manualInput inOrder) = .ok r ∧
      ((∀ m ∈ inOrder, ∃ a ∈ r.assignments, a.nodeId = m.nodeId ∧ a.layerRange = m.layerRange) ↔
        Spans 0 (inOrder.map (·.layerRange)) 4) := by
  have hok : (schedule F32.exact (manualInput inOrder)).isOk = true := by decide +kernel
  obtain ⟨r, hr⟩ := except_ok_of_isOk hok
  exact ⟨r, hr, manual_exact F32.exact (manualInput inOrder) rfl hr⟩

end Layers

end Fracture
