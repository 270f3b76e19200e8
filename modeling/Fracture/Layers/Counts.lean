import Fracture.Common.Greedy
import Fracture.Layers.Model

/-!
# What a schedule assigns

Whatever the mode, a schedule is made from a number of layers for each of
some nodes. Those numbers add up to the model's layers and none exceeds
what fits into its node's memory, and the ranges built from them are
consecutive. Everything a schedule promises follows from that.
-/

namespace Fracture

namespace Layers

open Effect

variable {F : Type} {f : F32 F} {input : SchedulerInput F}
  {cs : List (WorkerCapabilities F)} {counts : List ℕ}

/-! ## Consecutive ranges -/

/-- The ranges follow each other from a start to a stop. -/
def Spans : ℕ → List LayerRange → ℕ → Prop
  | start, [], stop => start = stop
  | start, r :: rest, stop => r.start = start ∧ r.start ≤ r.stop ∧ Spans r.stop rest stop

section

variable (n i start : ℕ) (pairs : List (WorkerCapabilities F × ℕ))

theorem spans_assignFrom :
    Spans start ((assignFrom f input n i start pairs).map (·.layerRange))
      (start + (pairs.map (·.2)).sum) := by
  induction pairs generalizing i start with
  | nil => rfl
  | cons p pairs ih =>
    have hrest := ih (i + 1) (start + p.2)
    rw [Nat.add_assoc] at hrest
    exact ⟨rfl, Nat.le_add_right _ _, hrest⟩

/-- Every assignment is that of its candidate: its name and its number of
layers. -/
theorem forall₂_assignFrom :
    List.Forall₂ (fun p a => a.nodeId = p.1.nodeId ∧ a.layerRange.len = p.2) pairs
      (assignFrom f input n i start pairs) := by
  induction pairs generalizing i start with
  | nil => exact .nil
  | cons p pairs ih => exact .cons ⟨rfl, Nat.add_sub_cancel_left ..⟩ (ih _ _)

theorem map_nodeId_assignFrom :
    (assignFrom f input n i start pairs).map (·.nodeId) = pairs.map (·.1.nodeId) :=
  Rows.map_eq_map (forall₂_assignFrom ..).flip fun _ _ hp => hp.1

end

variable {i k : ℕ}

/-! ## Counts that can be assigned -/

/-- So many layers for each node, no more than it holds, and all of the
model's layers together. -/
structure Settled (input : SchedulerInput F) (cs : List (WorkerCapabilities F))
    (counts : List ℕ) : Prop where
  length : counts.length = cs.length
  fits : ∀ i w, cs[i]? = some w → counts.getD i 0 ≤ ceiling input cs i w
  total : counts.sum = input.modelConfig.numLayers

/-- What the node at a place can hold. -/
def ceilingAt (input : SchedulerInput F) (cs : List (WorkerCapabilities F)) (i : ℕ) : ℕ :=
  (cs[i]?.map (ceiling input cs i)).getD 0

theorem ceilingAt_eq {w : WorkerCapabilities F} (hw : cs[i]? = some w) :
    ceilingAt input cs i = ceiling input cs i w := by
  simp [ceilingAt, hw]

/-- So many layers for each node, no more than it holds. -/
structure Fits (input : SchedulerInput F) (cs : List (WorkerCapabilities F)) (counts : List ℕ) :
    Prop where
  length : counts.length = cs.length
  le : ∀ i, counts.getD i 0 ≤ ceilingAt input cs i

/-- Layers that fit under the ceiling fit into the memory, next to what
the node's role keeps there. -/
theorem memory_of_le_ceiling {w : WorkerCapabilities F} {count : ℕ} (hpos : 0 < count)
    (h : count ≤ ceiling input cs i w) :
    count * perLayerTotal input + roleOverhead i cs.length input.modelConfig ≤
      w.gpuMemoryAvailable := by
  unfold ceiling maxLayersForNode at h
  have hper : 0 < perLayerTotal input := by
    rcases Nat.eq_zero_or_pos (perLayerTotal input) with hzero | hper
    · rw [hzero, Nat.div_zero] at h
      omega
    · exact hper
  have hbytes := (Nat.le_div_iff_mul_le hper).mp h
  have hsome : 0 < count * perLayerTotal input := Nat.mul_pos hpos hper
  omega

variable {r : SchedulerResult F}

/-- The result is the consecutive assignment of the counts, to at least
one node. -/
theorem buildResult_eq_ok {excluded : List (ExcludedNode F)}
    (h : buildResult f input cs counts excluded = .ok r) :
    cs ≠ [] ∧ r.assignments = assignFrom f input cs.length 0 0 (cs.zip counts) := by
  obtain ⟨w, hw, heq⟩ := except_bind_eq_ok.mp h
  constructor
  · rintro rfl
    rw [index_eq_ok] at hw
    exact absurd hw (by simp)
  · cases heq
    rfl

variable {α : Type}

/-- The place of the largest element is a place of the list. -/
theorem lastMax_lt {lt : α → α → Bool} {xs : List α} (h : lastMax lt xs = some i) :
    i < xs.length := by
  obtain ⟨y, hy, rfl⟩ := Option.map_eq_some_iff.mp h
  clear h
  induction xs using List.reverseRecOn with
  | nil => cases hy
  | append_singleton xs x ih =>
    rw [List.zipIdx_append, List.foldl_append, List.zipIdx_singleton] at hy
    rw [List.length_append, List.length_singleton]
    -- the last element is taken, or what was held before
    have hlast : y = (x, 0 + xs.length) ∨ y.2 < xs.length := by
      dsimp only [List.foldl_cons, List.foldl_nil] at hy
      split at hy
      · exact .inl (Option.some.inj hy).symm
      · rename_i z hz
        split at hy
        · exact .inr (ih (hz.trans hy))
        · exact .inl (Option.some.inj hy).symm
    rcases hlast with rfl | hlt
    · dsimp only
      omega
    · omega

theorem lastMax_getD_lt (lt : α → α → Bool) {xs : List α} (h : xs ≠ []) :
    (lastMax lt xs).getD 0 < xs.length := by
  cases hmax : lastMax lt xs with
  | none => exact List.length_pos_iff.mpr h
  | some i => exact lastMax_lt hmax

/-- A result is built whenever there is a node. -/
theorem buildResult_isOk (excluded : List (ExcludedNode F)) (hcs : cs ≠ [])
    (hlen : counts.length = cs.length) :
    ∃ r, buildResult f input cs counts excluded = .ok r := by
  have htimes : ((assignFrom f input cs.length 0 0 (cs.zip counts)).map
      (·.expectedDecodeMs)).length = cs.length := by
    rw [List.length_map, ← (forall₂_assignFrom ..).length_eq, List.length_zip, hlen, Nat.min_self]
  have hne : (assignFrom f input cs.length 0 0 (cs.zip counts)).map (·.expectedDecodeMs) ≠ [] := by
    rw [← List.length_pos_iff, htimes]
    exact List.length_pos_iff.mpr hcs
  have hlt := lastMax_getD_lt f.lt hne
  rw [htimes] at hlt
  have hindex := index_eq_ok.mpr (List.getElem?_eq_getElem hlt)
  exact ⟨_, except_bind_eq_ok.mpr ⟨_, hindex, rfl⟩⟩

/-- A schedule is one of its mode, for calibrated candidates. -/
theorem schedule_eq_ok (h : schedule f input = .ok r) :
    candidates input ≠ [] ∧ (∀ w ∈ candidates input, validateCalibration f w = .ok ()) ∧
      scheduleMode f input = .ok r := by
  unfold schedule at h
  split at h
  · cases h
  · rename_i hne
    obtain ⟨_, hvalid, h⟩ := except_bind_eq_ok.mp h
    exact ⟨by simpa using hne, except_forM_eq_ok hvalid, h⟩

/-! ## Adding and dropping layers -/

/-- What is picked qualifies. -/
theorem pick_mem {q : α → ℕ → Bool} {key : α → F} {better : F → F → Bool} {bound : F} {xs : List α}
    (h : pick q key better bound xs = some i) : ∃ x, xs[i]? = some x ∧ q x i = true := by
  unfold pick at h
  induction xs using List.reverseRecOn with
  | nil => cases h
  | append_singleton xs y ih =>
    rw [List.zipIdx_append, List.foldl_append, List.zipIdx_singleton, List.foldl_cons,
      List.foldl_nil] at h
    split at h
    · rename_i hq
      cases h
      rw [Bool.and_eq_true] at hq
      exact ⟨y, by simp, by simpa using hq.1⟩
    · obtain ⟨x, hx, hqx⟩ := ih h
      exact ⟨x, List.getElem?_append_left (List.getElem?_eq_some_iff.mp hx).1 ▸ hx, hqx⟩

/-- The counts stay under the ceilings, and each is at least what it was. -/
theorem addLayers_eq_ok {missing : ℕ} {added : List ℕ} (hfits : Fits input cs counts)
    (h : addLayers f input cs missing counts = .ok added) :
    Fits input cs added ∧ added.sum = counts.sum + missing ∧
      ∀ i, counts.getD i 0 ≤ added.getD i 0 := by
  induction missing generalizing counts with
  | zero =>
    cases h
    exact ⟨hfits, rfl, fun _ => le_rfl⟩
  | succ missing ih =>
    unfold addLayers at h
    cases hpick : fastestWithRoom f input cs counts with
    | none =>
      rw [hpick] at h
      cases h
    | some i =>
      rw [hpick] at h
      obtain ⟨w, hw, hroom⟩ := pick_mem hpick
      rw [decide_eq_true_eq, ← ceilingAt_eq hw] at hroom
      have hi : i < counts.length := by
        rw [hfits.length]
        exact (List.getElem?_eq_some_iff.mp hw).1
      have hfits' : Fits input cs (counts.modify i (· + 1)) := by
        refine ⟨(List.length_modify ..).trans hfits.length, fun j => ?_⟩
        rw [Tally.getD_modify _ hi]
        split
        · rename_i hji
          subst hji
          exact hroom
        · exact hfits.le j
      obtain ⟨hall, hsum, hmore⟩ := ih hfits' h
      refine ⟨hall, ?_, fun j => (Tally.getD_le_modify_succ counts i j).trans (hmore j)⟩
      rw [hsum, Tally.sum_modify_succ hi]
      omega

/-- Dropping layers leaves no count larger. -/
theorem dropLayers_le (surplus : ℕ) (counts : List ℕ) :
    (dropLayers f cs surplus counts).length = counts.length ∧
      ∀ i, (dropLayers f cs surplus counts).getD i 0 ≤ counts.getD i 0 := by
  induction surplus generalizing counts with
  | zero => exact ⟨rfl, fun _ => le_rfl⟩
  | succ surplus ih =>
    unfold dropLayers
    cases hpick : slowestWithLayers f cs counts with
    | none => exact ⟨rfl, fun _ => le_rfl⟩
    | some i =>
      obtain ⟨w, -, hpos⟩ := pick_mem hpick
      rw [decide_eq_true_eq] at hpos
      obtain ⟨hlen, hle⟩ := ih (counts.modify i (· - 1))
      refine ⟨hlen.trans (List.length_modify ..), fun j => (hle j).trans ?_⟩
      rw [Tally.getD_modify _ (Tally.lt_length_of_pos hpos)]
      split
      · rename_i hji
        subst hji
        omega
      · exact le_rfl

theorem settled_of_redistributeLayers {settled : List ℕ} (hfits : Fits input cs counts)
    (h : redistributeLayers f input cs counts = .ok settled) : Settled input cs settled := by
  obtain ⟨added, hadd, h⟩ := except_bind_eq_ok.mp h
  obtain ⟨hfits', -, -⟩ := addLayers_eq_ok hfits hadd
  obtain ⟨hlen, hle⟩ : (dropLayers f cs (added.sum - input.modelConfig.numLayers) added).length =
      added.length ∧ _ := dropLayers_le _ _
  dsimp only at h
  split at h
  · rename_i htotal
    cases h
    exact ⟨hlen.trans hfits'.length,
      fun i w hw => ceilingAt_eq hw ▸ (hle i).trans (hfits'.le i), htotal⟩
  · cases h

/-! ## Auto mode -/

theorem slowest_lt (h : cs ≠ []) : slowest f cs < cs.length := by
  have hne : cs.map (·.decodeMsPerLayer) ≠ [] := by simpa using h
  have hlt := lastMax_getD_lt f.lt hne
  rwa [List.length_map] at hlt

theorem one_lt_of_prunes (h : prunes f input cs = true) : 1 < cs.length := by
  simp only [prunes, Bool.and_eq_true, decide_eq_true_eq] at h
  exact h.1.1

/-- Pruning leaves some of the candidates, in their order. -/
theorem pruneSlow_sublist (fuel : ℕ) (cs : List (WorkerCapabilities F))
    (excluded : List (ExcludedNode F)) (hcs : cs ≠ []) :
    (pruneSlow f input fuel cs excluded).1.Sublist cs ∧
      (pruneSlow f input fuel cs excluded).1 ≠ [] := by
  induction fuel generalizing cs excluded with
  | zero => exact ⟨.refl _, hcs⟩
  | succ fuel ih =>
    unfold pruneSlow
    split
    · rename_i hprunes
      have hlen := one_lt_of_prunes hprunes
      have hne : cs.eraseIdx (slowest f cs) ≠ [] := by
        rw [← List.length_pos_iff, List.length_eraseIdx_of_lt (slowest_lt hcs)]
        omega
      obtain ⟨hsub, hne'⟩ := ih (cs.eraseIdx (slowest f cs)) _ hne
      exact ⟨hsub.trans (List.eraseIdx_sublist ..), hne'⟩
    · exact ⟨.refl _, hcs⟩

theorem length_clampedShares : (clampedShares f input cs).length = cs.length := by
  rw [clampedShares, List.length_map, List.length_zipIdx]

theorem getD_clampedShares {w : WorkerCapabilities F} (hw : cs[i]? = some w) :
    (clampedShares f input cs).getD i 0 = clampedShare f input cs w i := by
  simp [clampedShares, List.getD_eq_getElem?_getD, List.getElem?_zipIdx, hw]

theorem fits_clampedShares : Fits input cs (clampedShares f input cs) := by
  refine ⟨length_clampedShares, fun i => ?_⟩
  cases hw : cs[i]? with
  | none =>
    rw [List.getElem?_eq_none_iff, ← length_clampedShares] at hw
    rw [List.getD_eq_default _ _ hw]
    exact Nat.zero_le _
  | some w =>
    rw [getD_clampedShares hw, ceilingAt_eq hw]
    exact Nat.min_le_right _ _

/-- The nodes kept by pruning and the layers they get. -/
theorem scheduleAuto_eq_ok (h : scheduleAuto f input cs = .ok r) :
    ∃ counts, redistributeLayers f input (pruneSlow f input cs.length cs []).1
        (clampedShares f input (pruneSlow f input cs.length cs []).1) = .ok counts ∧
      buildResult f input (pruneSlow f input cs.length cs []).1 counts
        (pruneSlow f input cs.length cs []).2 = .ok r :=
  except_bind_eq_ok.mp h

theorem settled_auto
    (h : redistributeLayers f input cs (clampedShares f input cs) = .ok counts) :
    Settled input cs counts :=
  settled_of_redistributeLayers fits_clampedShares h

/-! ## Equal split -/

/-- Counting up some places, each within the list. -/
theorem foldl_modify_succ (places : List ℕ) (counts : List ℕ)
    (hplaces : ∀ i ∈ places, i < counts.length) :
    (places.foldl (fun counts i => counts.modify i (· + 1)) counts).length = counts.length ∧
      (places.foldl (fun counts i => counts.modify i (· + 1)) counts).sum =
        counts.sum + places.length := by
  induction places generalizing counts with
  | nil => exact ⟨rfl, rfl⟩
  | cons i places ih =>
    have hlen : (counts.modify i (· + 1)).length = counts.length := List.length_modify ..
    obtain ⟨hlen', hsum⟩ := ih (counts.modify i (· + 1)) fun j hj => by
      rw [hlen]
      exact hplaces j (.tail _ hj)
    refine ⟨hlen'.trans hlen, ?_⟩
    rw [List.foldl_cons, hsum, Tally.sum_modify_succ (hplaces i (.head _)), List.length_cons]
    omega

theorem memoryOrder_perm (cs : List (WorkerCapabilities F)) :
    (memoryOrder cs).Perm (List.range cs.length) :=
  List.perm_insertionSort ..

theorem lt_of_mem_take_memoryOrder (h : i ∈ (memoryOrder cs).take k) : i < cs.length :=
  List.mem_range.mp ((memoryOrder_perm cs).mem_iff.mp (List.mem_of_mem_take h))

theorem length_take_memoryOrder (h : k ≤ cs.length) : ((memoryOrder cs).take k).length = k := by
  rw [List.length_take, (memoryOrder_perm cs).length_eq, List.length_range]
  omega

theorem length_equalCounts : (equalCounts input cs).length = cs.length := by
  refine (foldl_modify_succ _ _ fun i hi => ?_).1.trans List.length_replicate
  rw [List.length_replicate]
  exact lt_of_mem_take_memoryOrder hi

theorem sum_equalCounts (hcs : cs ≠ []) :
    (equalCounts input cs).sum = input.modelConfig.numLayers := by
  have hpos : 0 < cs.length := List.length_pos_iff.mpr hcs
  have hmod := Nat.mod_lt input.modelConfig.numLayers hpos
  refine (foldl_modify_succ _ _ fun i hi => ?_).2.trans ?_
  · rw [List.length_replicate]
    exact lt_of_mem_take_memoryOrder hi
  · rw [length_take_memoryOrder hmod.le, List.sum_replicate_nat, Nat.div_add_mod]

theorem scheduleEqual_eq_ok (h : scheduleEqual f input cs = .ok r) :
    (∀ i w, cs[i]? = some w → (equalCounts input cs).getD i 0 ≤ ceiling input cs i w) ∧
      buildResult f input cs (equalCounts input cs) [] = .ok r := by
  obtain ⟨_, hcheck, h⟩ := except_bind_eq_ok.mp h
  refine ⟨fun i w hw => ?_, h⟩
  have hmem : (w, i) ∈ cs.zipIdx := List.mem_zipIdx_iff_getElem?.mpr hw
  have hfits := except_forM_eq_ok hcheck (w, i) hmem
  unfold checkEqual at hfits
  by_contra hover
  rw [if_pos (Nat.not_le.mp hover)] at hfits
  cases hfits

theorem settled_equal (h : scheduleEqual f input cs = .ok r) :
    Settled input cs (equalCounts input cs) := by
  obtain ⟨hfits, hbuild⟩ := scheduleEqual_eq_ok h
  exact ⟨length_equalCounts, hfits, sum_equalCounts (buildResult_eq_ok hbuild).1⟩

end Layers

end Fracture
