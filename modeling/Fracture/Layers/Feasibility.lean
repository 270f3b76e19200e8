import Fracture.Layers.Staffing

/-!
# Pruning and whole layers

A node is pruned when the others have the bytes for the model together.
Layers are not divided between nodes, so the others may be short of whole
layers all the same, and an input that could be scheduled becomes an
error. Where every pruning step leaves room for the whole layers, it does
not.
-/

namespace Fracture

namespace Layers

open Effect

variable {F : Type} {f : F32 F} {input : SchedulerInput F}
  {cs cs' : List (WorkerCapabilities F)}

/-! ## Pruning steps -/

/-- What is left of the candidates after some pruning steps. -/
inductive Pruned (f : F32 F) (input : SchedulerInput F) :
    List (WorkerCapabilities F) → List (WorkerCapabilities F) → Prop
  | refl (cs : List (WorkerCapabilities F)) : Pruned f input cs cs
  | step {cs cs' : List (WorkerCapabilities F)} (hprunes : prunes f input cs = true)
      (hrest : Pruned f input (cs.eraseIdx (slowest f cs)) cs') : Pruned f input cs cs'

/-- The loop takes pruning steps, and stops where there is none to take. -/
theorem pruned_pruneSlow {fuel : ℕ} (hfuel : cs.length ≤ fuel + 1) (hcs : cs ≠ [])
    (excluded : List (ExcludedNode F)) :
    Pruned f input cs (pruneSlow f input fuel cs excluded).1 ∧
      prunes f input (pruneSlow f input fuel cs excluded).1 = false := by
  induction fuel generalizing cs excluded with
  | zero =>
    refine ⟨.refl _, ?_⟩
    have hlen : ¬ 1 < cs.length := by omega
    simp [pruneSlow, prunes, hlen]
  | succ fuel ih =>
    unfold pruneSlow
    split
    · rename_i hprunes
      have hlen := one_lt_of_prunes hprunes
      have herase := List.length_eraseIdx_of_lt (slowest_lt (f := f) hcs)
      have hne : cs.eraseIdx (slowest f cs) ≠ [] := by
        rw [← List.length_pos_iff, herase]
        omega
      obtain ⟨hpruned, hstop⟩ := ih (by rw [herase]; omega) hne (excluded ++ [_])
      exact ⟨.step hprunes hpruned, hstop⟩
    · rename_i hstop
      exact ⟨.refl _, by simpa using hstop⟩

/-- Pruning is a function of the candidates. -/
theorem Pruned.suffix (h : Pruned f input cs cs') {last : List (WorkerCapabilities F)}
    (hlast : Pruned f input cs last) (hstop : prunes f input last = false) :
    Pruned f input cs' last := by
  induction h with
  | refl => exact hlast
  | step hprunes _ ih =>
    cases hlast with
    | refl =>
      rw [hprunes] at hstop
      cases hstop
    | step _ hrest => exact ih hrest

/-! ## Capacity -/

/-- The whole layers of nodes at the places from `i` on, of `n`. -/
def capacityFrom (input : SchedulerInput F) (n : ℕ) : ℕ → List (WorkerCapabilities F) → ℕ
  | _, [] => 0
  | i, w :: rest =>
    maxLayersForNode w.gpuMemoryAvailable (perLayerTotal input)
      (roleOverhead i n input.modelConfig) + capacityFrom input n (i + 1) rest

theorem capacityFrom_eq (n i : ℕ) (cs : List (WorkerCapabilities F)) :
    capacityFrom input n i cs = ∑ j ∈ Finset.range cs.length,
      (cs[j]?.map fun w => maxLayersForNode w.gpuMemoryAvailable (perLayerTotal input)
        (roleOverhead (i + j) n input.modelConfig)).getD 0 := by
  induction cs generalizing i with
  | nil => rfl
  | cons w cs ih =>
    rw [capacityFrom, ih, List.length_cons, Finset.sum_range_succ']
    simp only [List.getElem?_cons_succ, List.getElem?_cons_zero, Option.map_some,
      Option.getD_some, Nat.add_zero]
    rw [Nat.add_comm]
    congr 1
    refine Finset.sum_congr rfl fun j _ => ?_
    rw [show i + 1 + j = i + (j + 1) by omega]

theorem capacity_eq : capacity input cs = capacityFrom input cs.length 0 cs := by
  rw [capacityFrom_eq]
  refine Finset.sum_congr rfl fun j _ => ?_
  simp only [ceilingAt, Nat.zero_add]
  rfl

theorem maxLayersForNode_mono {available perLayer overhead overhead' : ℕ}
    (h : overhead ≤ overhead') :
    maxLayersForNode available perLayer overhead' ≤ maxLayersForNode available perLayer overhead :=
  Nat.div_le_div_right (Nat.sub_le_sub_left h _)

/-- A role's overhead is what it keeps as the first and as the last node. -/
theorem roleOverhead_eq (i n : ℕ) (config : ModelConfig) :
    roleOverhead i n config = (if i = 0 then headOverhead config else 0) +
      if i = n - 1 then tailOverhead config else 0 := by
  unfold roleOverhead
  split <;> grind

/-- A node that stays keeps the roles it has. -/
theorem roleOverhead_mono {i j n m : ℕ} {config : ModelConfig} (hhead : i = 0 → j = 0)
    (htail : i = n - 1 → j = m - 1) : roleOverhead i n config ≤ roleOverhead j m config := by
  rw [roleOverhead_eq, roleOverhead_eq]
  refine Nat.add_le_add ?_ ?_
  · split
    · rename_i hi
      rw [if_pos (hhead hi)]
    · exact Nat.zero_le _
  · split
    · rename_i hi
      rw [if_pos (htail hi)]
    · exact Nat.zero_le _

/-- Nodes that move up one place hold no more than before. -/
theorem capacityFrom_shift (n i : ℕ) (cs : List (WorkerCapabilities F)) :
    capacityFrom input (n - 1) i cs ≤ capacityFrom input n (i + 1) cs := by
  induction cs generalizing i with
  | nil => exact le_rfl
  | cons w cs ih =>
    refine Nat.add_le_add (maxLayersForNode_mono (roleOverhead_mono ?_ ?_)) (ih (i + 1))
    · intro hzero
      omega
    · intro hlast
      omega

/-- Without one of the nodes the others hold no more. -/
theorem capacityFrom_eraseIdx {n i s : ℕ} (hn : n = i + cs.length) (hs : s < cs.length) :
    capacityFrom input (n - 1) i (cs.eraseIdx s) ≤ capacityFrom input n i cs := by
  induction cs generalizing i s with
  | nil => exact absurd hs (Nat.not_lt_zero _)
  | cons w cs ih =>
    cases s with
    | zero => exact (capacityFrom_shift n i cs).trans (Nat.le_add_left _ _)
    | succ s =>
      rw [List.length_cons] at hn hs
      have hrest := ih (i := i + 1) (s := s) (by omega) (by omega)
      refine Nat.add_le_add (maxLayersForNode_mono (roleOverhead_mono id ?_)) hrest
      -- another node follows, so this one is not the last
      intro hlast
      omega

theorem capacity_eraseIdx {s : ℕ} (hs : s < cs.length) :
    capacity input (cs.eraseIdx s) ≤ capacity input cs := by
  rw [capacity_eq, capacity_eq, List.length_eraseIdx_of_lt hs]
  exact capacityFrom_eraseIdx (Nat.zero_add _).symm hs

theorem Pruned.capacity_le (h : Pruned f input cs cs') :
    capacity input cs' ≤ capacity input cs := by
  induction h with
  | refl => exact le_rfl
  | @step cs _ hprunes _ ih =>
    have hlen := one_lt_of_prunes hprunes
    have hne : cs ≠ [] := by
      rintro rfl
      exact absurd hlen (by simp)
    exact ih.trans (capacity_eraseIdx (slowest_lt hne))

/-! ## Feasible inputs -/

/-- There is a node; whenever a node is pruned the others hold the model's
layers; and the shares exceed the layers by no more than can be dropped. -/
structure Feasible (f : F32 F) (input : SchedulerInput F) : Prop where
  nonempty : candidates input ≠ []
  whole : ∀ cs, Pruned f input (candidates input) cs → prunes f input cs = true →
    input.modelConfig.numLayers ≤ capacity input (cs.eraseIdx (slowest f cs))
  surplus : shareTotal f input (keptNodes f input) - input.modelConfig.numLayers ≤
    droppable f (keptNodes f input) (clampedShares f input (keptNodes f input))

/-- The nodes that are kept hold the layers exactly when no pruning step
takes them away. -/
theorem capacity_keptNodes_iff (hne : candidates input ≠ [])
    (hcap : input.modelConfig.numLayers ≤ capacity input (candidates input)) :
    input.modelConfig.numLayers ≤ capacity input (keptNodes f input) ↔
      ∀ cs, Pruned f input (candidates input) cs → prunes f input cs = true →
        input.modelConfig.numLayers ≤ capacity input (cs.eraseIdx (slowest f cs)) := by
  obtain ⟨hkept, hstop⟩ : Pruned f input (candidates input) (keptNodes f input) ∧
      prunes f input (keptNodes f input) = false :=
    pruned_pruneSlow (Nat.le_succ _) hne []
  constructor
  · intro hle cs hcs hprunes
    cases hcs.suffix hkept hstop with
    | refl =>
      rw [hprunes] at hstop
      cases hstop
    | step _ hrest => exact hle.trans hrest.capacity_le
  · intro hall
    -- the last step decides, or there was none
    have hlast : ∀ {cs cs'}, Pruned f input cs cs' →
        (∀ cs'', Pruned f input cs cs'' → prunes f input cs'' = true →
          input.modelConfig.numLayers ≤ capacity input (cs''.eraseIdx (slowest f cs''))) →
        input.modelConfig.numLayers ≤ capacity input cs →
        input.modelConfig.numLayers ≤ capacity input cs' := by
      intro cs cs' h
      induction h with
      | refl => exact fun _ hle => hle
      | step hprunes _ ih =>
        intro hsteps _
        exact ih (fun cs'' hcs'' => hsteps cs'' (.step hprunes hcs''))
          (hsteps _ (.refl _) hprunes)
    exact hlast hkept hall hcap

/-- **When an input with enough capacity is scheduled.** In auto mode, with
plausible calibrations and room for all whole layers on the given nodes,
the scheduler returns a result exactly for the feasible inputs. -/
theorem auto_isOk_iff (f : F32 F) (hf : f.Lawful) (input : SchedulerInput F)
    (hmode : input.mode = .auto)
    (hvalid : ∀ w ∈ candidates input, validateCalibration f w = .ok ())
    (hcap : input.modelConfig.numLayers ≤ capacity input (candidates input)) :
    (∃ r, schedule f input = .ok r) ↔ Feasible f input := by
  constructor
  · rintro ⟨r, h⟩
    obtain ⟨hne, -, h⟩ := schedule_eq_ok h
    rw [scheduleMode, hmode] at h
    obtain ⟨counts, hcounts, hplan⟩ := planned_auto hne h
    have hs : SaneSpeeds f (keptNodes f input) :=
      saneSpeeds hf fun w hw => hvalid w (hplan.known w hw)
    obtain ⟨hwhole, hsurplus⟩ := (exists_redistributed_iff hf hs fits_clampedShares).mp ⟨counts, hcounts⟩
    exact ⟨hne, (capacity_keptNodes_iff hne hcap).mp hwhole, hsurplus⟩
  · rintro ⟨hne, hwhole, hsurplus⟩
    have hsub : (keptNodes f input).Sublist (candidates input) ∧ keptNodes f input ≠ [] :=
      pruneSlow_sublist _ _ _ hne
    have hs : SaneSpeeds f (keptNodes f input) :=
      saneSpeeds hf fun w hw => hvalid w (hsub.1.subset hw)
    obtain ⟨counts, hcounts⟩ := (exists_redistributed_iff hf hs fits_clampedShares).mpr
      ⟨(capacity_keptNodes_iff hne hcap).mpr hwhole, hsurplus⟩
    obtain ⟨r, hr⟩ : ∃ r, buildResult f input (keptNodes f input) counts
        (pruneSlow f input (candidates input).length (candidates input) []).2 = .ok r :=
      buildResult_isOk _ hsub.2 (settled_auto hcounts).length
    refine ⟨r, ?_⟩
    unfold schedule
    rw [if_neg (by simpa using hne), except_forM_ok hvalid, except_ok_bind, scheduleMode, hmode]
    exact except_bind_eq_ok.mpr ⟨counts, hcounts, hr⟩

/-- Three workers for four layers of 274 bytes. The two fast ones have room
for two layers and a half and for one and a half, and the slow one for a
layer. -/
def halves : SchedulerInput ℚ :=
  { modelConfig := fourLayers,
    workers := [⟨"w1", 2 + 685, 1, 1⟩, ⟨"w2", 4 + 411, 1, 1⟩, ⟨"w3", 4 + 274, 100, 1⟩],
    coordinatorCompute := none, mode := .auto, maxSeqLen := 64, hopLatencyMs := 2 }

/-- The slow worker is pruned, since the bytes of the others add up to four
layers, and then four layers cannot be placed. -/
theorem halves_fails :
    (candidates halves).all (fun w => (validateCalibration F32.exact w).isOk) = true ∧
      halves.modelConfig.numLayers ≤ capacity halves (candidates halves) ∧
      (schedule F32.exact halves).isOk = false := by
  decide +kernel

theorem auto_isOk_iff_autoInput :
    (∃ r, schedule F32.exact autoInput = .ok r) ↔ Feasible F32.exact autoInput := by
  refine auto_isOk_iff F32.exact F32.exact_lawful autoInput rfl ?_ (by decide +kernel)
  intro w hw
  have hall : (candidates autoInput).all
      (fun w => (validateCalibration F32.exact w).isOk) = true := by decide +kernel
  have hok := List.all_eq_true.mp hall w hw
  cases hv : validateCalibration F32.exact w with
  | error e =>
    rw [hv] at hok
    cases hok
  | ok u => rfl

end Layers

end Fracture
