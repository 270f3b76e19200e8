import Fracture.Layers.Schedule

/-!
# Redistribution is greedy filling

Missing layers go to the fastest nodes that have room, and surplus layers
are taken from the slowest nodes that have any. Both loops fill places in
an order of preference, so the final counts are known from the shares,
the ceilings and the order of the speeds.
-/

namespace Fracture

namespace Layers

open Effect Greedy

variable {F : Type} {f : F32 F} {input : SchedulerInput F}
  {cs : List (WorkerCapabilities F)} {counts settled : List ℕ}

/-! ## Picking the best -/

/-- A strict comparison under which sane values never fall between. -/
structure Compares (better : F → F → Bool) (sane : F → Prop) : Prop where
  irrefl : ∀ a, better a a = false
  trans : ∀ {a b c}, better a b = true → better b c = true → better a c = true
  between : ∀ {a c} b, sane b → better a c = true → better a b = true ∨ better b c = true

theorem compares_lt (hf : f.Lawful) : Compares f.lt fun a => f.isNan a = false :=
  ⟨hf.lt_irrefl, hf.lt_trans, hf.lt_or_lt⟩

theorem compares_gt (hf : f.Lawful) :
    Compares (fun a b => f.lt b a) fun a => f.isNan a = false :=
  ⟨hf.lt_irrefl, fun hab hbc => hf.lt_trans hbc hab, fun b hb hac => (hf.lt_or_lt b hb hac).symm⟩

section

variable {better : F → F → Bool} {sane : F → Prop} {α : Type} {q : α → ℕ → Bool} {key : α → F}
  {bound : F} {xs : List α}

/-- The fold of `pick`: the place and its key. -/
def picking (q : α → ℕ → Bool) (key : α → F) (better : F → F → Bool) (bound : F) (xs : List α) :
    Option ℕ × F :=
  xs.zipIdx.foldl (fun best p =>
    if q p.1 p.2 && better (key p.1) best.2 then (some p.2, key p.1) else best) (none, bound)

theorem picking_concat (xs : List α) (y : α) :
    picking q key better bound (xs ++ [y]) =
      if q y xs.length && better (key y) (picking q key better bound xs).2 then
        (some xs.length, key y) else picking q key better bound xs := by
  simp [picking, List.zipIdx_append]

/-- The element at `i` is preferred to all others that qualify. -/
structure Best (q : α → ℕ → Bool) (key : α → F) (better : F → F → Bool) (bound : F) (xs : List α)
    (i : ℕ) (x : α) : Prop where
  at_ : xs[i]? = some x
  qualifies : q x i = true
  beats : better (key x) bound = true
  top : ∀ j y, xs[j]? = some y → q y j = true → better (key y) (key x) = false
  first : ∀ j y, xs[j]? = some y → q y j = true → j < i → better (key x) (key y) = true

theorem getElem?_concat_cases {y z : α} {j : ℕ} (h : (xs ++ [y])[j]? = some z) :
    xs[j]? = some z ∨ j = xs.length ∧ z = y := by
  rcases Nat.lt_trichotomy j xs.length with hlt | heq | hgt
  · exact .inl (by rwa [List.getElem?_append_left hlt] at h)
  · subst heq
    exact .inr ⟨rfl, by simpa using h.symm⟩
  · rw [List.getElem?_eq_none (by simp; omega)] at h
    cases h

variable (hb : Compares better sane)
include hb

/-- No element that qualifies is better than what is held at the end. -/
theorem picking_top {j : ℕ} {z : α} (hz : xs[j]? = some z) (hqz : q z j = true) :
    better (key z) (picking q key better bound xs).2 = false := by
  induction xs using List.reverseRecOn with
  | nil => exact absurd hz (by simp)
  | append_singleton xs y ih =>
    rw [picking_concat]
    split
    · rename_i hwin
      rw [Bool.and_eq_true] at hwin
      rcases getElem?_concat_cases hz with hz | ⟨-, rfl⟩
      · have hnot := ih hz
        by_contra hbetter
        rw [Bool.not_eq_false] at hbetter
        rw [hb.trans hbetter hwin.2] at hnot
        cases hnot
      · exact hb.irrefl _
    · rename_i hlose
      rcases getElem?_concat_cases hz with hz | ⟨rfl, rfl⟩
      · exact ih hz
      · rw [Bool.and_eq_true, not_and, Bool.not_eq_true] at hlose
        exact hlose hqz

variable (hkey : ∀ x ∈ xs, sane (key x))
include hkey

/-- **What is picked is preferred to all that qualify**, and where nothing
is picked the bound is held. -/
theorem picking_spec (q : α → ℕ → Bool) (bound : F) :
    picking q key better bound xs = (none, bound) ∨
      ∃ i x, picking q key better bound xs = (some i, key x) ∧
        Best q key better bound xs i x := by
  induction xs using List.reverseRecOn with
  | nil => exact .inl rfl
  | append_singleton xs y ih =>
    have hkey' : ∀ x ∈ xs, sane (key x) := fun x hx => hkey x (List.mem_append_left _ hx)
    have htop : ∀ j z, (xs ++ [y])[j]? = some z → q z j = true →
        better (key z) (picking q key better bound (xs ++ [y])).2 = false :=
      fun j z hz hqz => picking_top hb hz hqz
    rw [picking_concat] at htop ⊢
    split
    · -- the new element beats what was held
      rename_i hwin
      rw [if_pos hwin] at htop
      rw [Bool.and_eq_true] at hwin
      obtain ⟨hq, hbeat⟩ := hwin
      have hbound : better (key y) bound = true := by
        rcases ih hkey' with hnone | ⟨i, x, hsome, hbest⟩
        · rwa [hnone] at hbeat
        · rw [hsome] at hbeat
          exact hb.trans hbeat hbest.beats
      refine .inr ⟨xs.length, y, rfl, by simp, hq, hbound, htop, fun j z hz hqz hj => ?_⟩
      rcases getElem?_concat_cases hz with hz | ⟨rfl, -⟩
      · refine (hb.between (key z) (hkey' z (List.mem_of_getElem? hz)) hbeat).resolve_right ?_
        rw [picking_top hb hz hqz]
        simp
      · exact absurd hj (Nat.lt_irrefl _)
    · rename_i hlose
      rw [if_neg hlose] at htop
      rcases ih hkey' with hnone | ⟨i, x, hsome, hbest⟩
      · exact .inl hnone
      · have hi : i < xs.length := (List.getElem?_eq_some_iff.mp hbest.at_).1
        rw [hsome] at htop
        refine .inr ⟨i, x, hsome, ?_, hbest.qualifies, hbest.beats, htop, ?_⟩
        · rw [List.getElem?_append_left hi]
          exact hbest.at_
        · intro j z hz hqz hj
          rcases getElem?_concat_cases hz with hz | ⟨rfl, -⟩
          · exact hbest.first j z hz hqz hj
          · omega

/-- What is picked is the best. -/
theorem best_of_pick {i : ℕ} (h : pick q key better bound xs = some i) :
    ∃ x, Best q key better bound xs i x := by
  have hpick : (picking q key better bound xs).1 = some i := h
  rcases picking_spec hb hkey q bound with hnone | ⟨i', x, hsome, hbest⟩
  · rw [hnone] at hpick
    cases hpick
  · rw [hsome] at hpick
    cases hpick
    exact ⟨x, hbest⟩

/-- Something is picked when something that qualifies beats the bound. -/
theorem exists_pick {j : ℕ} {y : α} (hy : xs[j]? = some y) (hq : q y j = true)
    (hbeats : better (key y) bound = true) : ∃ i, pick q key better bound xs = some i := by
  rcases picking_spec hb hkey q bound with hnone | ⟨i, x, hsome, -⟩
  · have hno : better (key y) (picking q key better bound xs).2 = false := picking_top hb hy hq
    rw [hnone, hbeats] at hno
    cases hno
  · exact ⟨i, congrArg Prod.fst hsome⟩

end

/-! ## The order of the nodes -/

/-- Better, or no worse and earlier in the list. -/
def prefers (better : F → F → Bool) (key : ℕ → F) (i j : ℕ) : Prop :=
  better (key i) (key j) = true ∨ better (key j) (key i) = false ∧ i < j

instance prefers.decidable (better : F → F → Bool) (key : ℕ → F) : DecidableRel (prefers better key) :=
  fun i j => inferInstanceAs
    (Decidable (better (key i) (key j) = true ∨ better (key j) (key i) = false ∧ i < j))

section

variable (f : F32 F) (input : SchedulerInput F) (cs : List (WorkerCapabilities F))

/-- The speed of the node at a place. -/
def speedAt (i : ℕ) : F :=
  (cs[i]?.map (speed f)).getD f.least

/-- Who gets a missing layer first. -/
abbrev faster : ℕ → ℕ → Prop :=
  prefers (fun a b => f.lt b a) (speedAt f cs)

/-- Who gives a surplus layer first. -/
abbrev slower : ℕ → ℕ → Prop :=
  prefers f.lt (speedAt f cs)

/-- The speeds are numbers above the bound the search starts from. -/
def SaneSpeeds : Prop :=
  ∀ w ∈ cs, f.isNan (speed f w) = false ∧ f.lt f.least (speed f w) = true

/-- The layers of the nodes whose speed is below the bound the search for
the slowest starts from. -/
def droppable (counts : List ℕ) : ℕ :=
  ∑ i ∈ Finset.range cs.length with f.lt (speedAt f cs i) f.greatest = true, counts.getD i 0

/-- The clamped share of the node at a place. -/
def shareAt (i : ℕ) : ℕ :=
  (clampedShares f input cs).getD i 0

/-- The layers all shares give together. -/
def shareTotal : ℕ :=
  (clampedShares f input cs).sum

/-- The whole layers the nodes can hold together. -/
def capacity : ℕ :=
  ∑ i ∈ Finset.range cs.length, ceilingAt input cs i

/-- A node gets a layer: it has a share and, where layers have to be given
up, the slower nodes and its own share are more than those; or the rooms
of the faster nodes are less than the layers that are missing. -/
def GetsLayer (i : ℕ) : Prop :=
  if shareTotal f input cs ≤ input.modelConfig.numLayers then
    0 < shareAt f input cs i ∨
      0 < ceilingAt input cs i ∧
        ahead (Finset.range cs.length) (faster f cs)
          (fun j => ceilingAt input cs j - shareAt f input cs j) i <
            input.modelConfig.numLayers - shareTotal f input cs
  else
    0 < shareAt f input cs i ∧
      shareTotal f input cs - input.modelConfig.numLayers <
        ahead (Finset.range cs.length) (slower f cs) (shareAt f input cs) i + shareAt f input cs i

end

section

variable {better : F → F → Bool} {sane : F → Prop} {key : ℕ → F} {i j : ℕ}

theorem prefers_total (h : j ≠ i) : prefers better key j i ∨ prefers better key i j := by
  unfold prefers
  cases hij : better (key i) (key j)
  · cases hji : better (key j) (key i)
    · rcases Nat.lt_or_gt_of_ne h with hlt | hgt
      · exact .inl (.inr ⟨rfl, hlt⟩)
      · exact .inr (.inr ⟨rfl, hgt⟩)
    · exact .inl (.inl rfl)
  · exact .inr (.inl rfl)

theorem prefers_asymm (hb : Compares better sane) (hji : prefers better key j i) :
    ¬ prefers better key i j := by
  rintro (hij | ⟨hij, hlt⟩) <;> rcases hji with hji | ⟨hji, hlt'⟩
  · have hself := hb.trans hij hji
    rw [hb.irrefl] at hself
    cases hself
  · rw [hij] at hji
    cases hji
  · rw [hij] at hji
    cases hji
  · omega

/-- A place preferred to the one picked does not qualify. -/
theorem Best.not_qualifies {q : WorkerCapabilities F → ℕ → Bool} {bound : F}
    {w v : WorkerCapabilities F} (h : Best q (speed f) better bound cs i w) (hv : cs[j]? = some v)
    (hpref : prefers better (speedAt f cs) j i) : q v j = false := by
  by_contra hq
  rw [Bool.not_eq_false] at hq
  have hi : speedAt f cs i = speed f w := by simp [speedAt, h.at_]
  have hj : speedAt f cs j = speed f v := by simp [speedAt, hv]
  rcases hpref with hbetter | ⟨hnot, hlt⟩
  · rw [hi, hj, h.top j v hv hq] at hbetter
    cases hbetter
  · rw [hi, hj, h.first j v hv hq hlt] at hnot
    cases hnot

end

/-! ## The loops -/

variable {i : ℕ}

theorem saneSpeeds (hf : f.Lawful) (hvalid : ∀ w ∈ cs, validateCalibration f w = .ok ()) :
    SaneSpeeds f cs := by
  intro w hw
  have hok := hvalid w hw
  unfold validateCalibration at hok
  split at hok
  · cases hok
  · rename_i hdecode
    rw [Bool.or_eq_true, not_or, Bool.not_eq_true, Bool.not_eq_true] at hdecode
    exact hf.recip hdecode.1 hdecode.2

theorem exists_of_lt_length (h : i < cs.length) : ∃ w, cs[i]? = some w :=
  ⟨cs[i], List.getElem?_eq_getElem h⟩

section

variable (hf : f.Lawful) (hs : SaneSpeeds f cs)
include hf hs

/-- The fastest node with room is preferred to all nodes with room. -/
theorem fastestWithRoom_spec (h : fastestWithRoom f input cs counts = some i) :
    i < cs.length ∧ counts.getD i 0 < ceilingAt input cs i ∧
      ∀ j < cs.length, faster f cs j i → ceilingAt input cs j ≤ counts.getD j 0 := by
  obtain ⟨w, hbest⟩ := best_of_pick (compares_gt hf) (fun w hw => (hs w hw).1) h
  have hq := hbest.qualifies
  rw [decide_eq_true_eq] at hq
  refine ⟨(List.getElem?_eq_some_iff.mp hbest.at_).1, ceilingAt_eq hbest.at_ ▸ hq, ?_⟩
  intro j hj hpref
  obtain ⟨v, hv⟩ := exists_of_lt_length hj
  have hnot := hbest.not_qualifies hv hpref
  rw [decide_eq_false_iff_not, Nat.not_lt] at hnot
  rwa [ceilingAt_eq hv]

/-- Some node with room is found when there is one. -/
theorem exists_fastestWithRoom {j : ℕ} (hj : j < cs.length)
    (hroom : counts.getD j 0 < ceilingAt input cs j) :
    ∃ i, fastestWithRoom f input cs counts = some i := by
  obtain ⟨v, hv⟩ := exists_of_lt_length hj
  rw [ceilingAt_eq hv] at hroom
  exact exists_pick (compares_gt hf) (fun w hw => (hs w hw).1) hv (decide_eq_true hroom)
    (hs v (List.mem_of_getElem? hv)).2

/-- Adding layers fills the rooms of the fastest nodes first. -/
theorem addLayers_filled {missing : ℕ} {k x : ℕ → ℕ} {added : List ℕ}
    (hlen : counts.length = cs.length) (hcounts : ∀ i < cs.length, counts.getD i 0 = k i + x i)
    (hfilled : Filled (Finset.range cs.length) (faster f cs)
      (fun i => ceilingAt input cs i - k i) x)
    (h : addLayers f input cs missing counts = .ok added) :
    ∃ x', Filled (Finset.range cs.length) (faster f cs) (fun i => ceilingAt input cs i - k i) x' ∧
      ∀ i < cs.length, added.getD i 0 = k i + x' i := by
  induction missing generalizing counts x with
  | zero =>
    cases h
    exact ⟨x, hfilled, hcounts⟩
  | succ missing ih =>
    unfold addLayers at h
    cases hpick : fastestWithRoom f input cs counts with
    | none =>
      rw [hpick] at h
      cases h
    | some i =>
      rw [hpick] at h
      obtain ⟨hi, hroom, hbest⟩ := fastestWithRoom_spec hf hs hpick
      have hix := hcounts i hi
      have hfilled' : Filled (Finset.range cs.length) (faster f cs)
          (fun i => ceilingAt input cs i - k i) (Function.update x i (x i + 1)) := by
        refine hfilled.add (by omega) fun j hj hpref => ?_
        have hj' := Finset.mem_range.mp hj
        have hfull := hbest j hj' hpref
        have hle := hfilled.le j hj
        have hjx := hcounts j hj'
        omega
      refine ih (by rw [List.length_modify, hlen]) (fun j hj => ?_) hfilled' h
      rw [Tally.getD_modify _ (hlen ▸ hi), Function.update_apply]
      split
      · rename_i hji
        subst hji
        omega
      · exact hcounts j hj

/-- Enough room lets all missing layers be added. -/
theorem addLayers_isOk {missing : ℕ} (hlen : counts.length = cs.length)
    (hroom : counts.sum + missing ≤ ∑ i ∈ Finset.range cs.length, ceilingAt input cs i) :
    ∃ added, addLayers f input cs missing counts = .ok added := by
  induction missing generalizing counts with
  | zero => exact ⟨counts, rfl⟩
  | succ missing ih =>
    -- some node is below its ceiling, or the counts would reach all of them
    have hsome : ∃ j ∈ Finset.range cs.length, counts.getD j 0 < ceilingAt input cs j := by
      refine Finset.exists_lt_of_sum_lt ?_
      rw [← hlen, ← Tally.sum_eq_sum_range, hlen]
      omega
    obtain ⟨j, hj, hlt⟩ := hsome
    obtain ⟨i, hpick⟩ := exists_fastestWithRoom hf hs (Finset.mem_range.mp hj) hlt
    have hi := (fastestWithRoom_spec hf hs hpick).1
    have hlen' : (counts.modify i (· + 1)).length = cs.length := by
      rw [List.length_modify, hlen]
    obtain ⟨added, hadded⟩ := ih hlen' (by
      rw [Tally.sum_modify_succ (hlen ▸ hi)]
      omega)
    refine ⟨added, ?_⟩
    rw [addLayers, hpick]
    exact hadded

/-- The slowest node that has layers gives one before all others that have
any, and is below the bound the search starts from. -/
theorem slowestWithLayers_spec (h : slowestWithLayers f cs counts = some i) :
    i < cs.length ∧ 0 < counts.getD i 0 ∧ f.lt (speedAt f cs i) f.greatest = true ∧
      ∀ j < cs.length, slower f cs j i → counts.getD j 0 = 0 := by
  obtain ⟨w, hbest⟩ := best_of_pick (compares_lt hf) (fun w hw => (hs w hw).1) h
  have hq := hbest.qualifies
  rw [decide_eq_true_eq] at hq
  have hspeed : speedAt f cs i = speed f w := by simp [speedAt, hbest.at_]
  refine ⟨(List.getElem?_eq_some_iff.mp hbest.at_).1, hq, hspeed ▸ hbest.beats, ?_⟩
  intro j hj hpref
  obtain ⟨v, hv⟩ := exists_of_lt_length hj
  have hnot := hbest.not_qualifies hv hpref
  rw [decide_eq_false_iff_not] at hnot
  omega

theorem exists_slowestWithLayers {j : ℕ} (hj : j < cs.length) (hpos : 0 < counts.getD j 0)
    (hbound : f.lt (speedAt f cs j) f.greatest = true) :
    ∃ i, slowestWithLayers f cs counts = some i := by
  obtain ⟨v, hv⟩ := exists_of_lt_length hj
  have hspeed : speedAt f cs j = speed f v := by simp [speedAt, hv]
  exact exists_pick (compares_lt hf) (fun w hw => (hs w hw).1) hv (decide_eq_true hpos)
    (hspeed ▸ hbound)

/-- Dropping all surplus layers empties the slowest nodes first. -/
theorem dropLayers_filled {surplus : ℕ} {k x : ℕ → ℕ} (hlen : counts.length = cs.length)
    (hcounts : ∀ i < cs.length, counts.getD i 0 + x i = k i)
    (hfilled : Filled (Finset.range cs.length) (slower f cs) k x)
    (h : (dropLayers f cs surplus counts).sum + surplus = counts.sum) :
    ∃ x', Filled (Finset.range cs.length) (slower f cs) k x' ∧
      ∀ i < cs.length, (dropLayers f cs surplus counts).getD i 0 + x' i = k i := by
  induction surplus generalizing counts x with
  | zero => exact ⟨x, hfilled, hcounts⟩
  | succ surplus ih =>
    unfold dropLayers at h ⊢
    cases hpick : slowestWithLayers f cs counts with
    | none =>
      rw [hpick] at h
      dsimp only at h
      omega
    | some i =>
      rw [hpick] at h
      obtain ⟨hi, hpos, -, hbest⟩ := slowestWithLayers_spec hf hs hpick
      have hix := hcounts i hi
      have hfilled' : Filled (Finset.range cs.length) (slower f cs) k
          (Function.update x i (x i + 1)) := by
        refine hfilled.add (by omega) fun j hj hpref => ?_
        have hj' := Finset.mem_range.mp hj
        have hempty := hbest j hj' hpref
        have hjx := hcounts j hj'
        omega
      have hsum := Tally.sum_modify_pred hpos
      refine ih (by rw [List.length_modify, hlen]) (fun j hj => ?_) hfilled' ?_
      · rw [Tally.getD_modify _ (hlen ▸ hi), Function.update_apply]
        split
        · rename_i hji
          subst hji
          omega
        · exact hcounts j hj
      · dsimp only at h
        omega

end

theorem droppable_modify (hlen : counts.length = cs.length) (hi : i < cs.length)
    (hpos : 0 < counts.getD i 0) (hbound : f.lt (speedAt f cs i) f.greatest = true) :
    droppable f cs (counts.modify i (· - 1)) + 1 = droppable f cs counts := by
  have hmem : i ∈ (Finset.range cs.length).filter
      fun i => f.lt (speedAt f cs i) f.greatest = true :=
    Finset.mem_filter.mpr ⟨Finset.mem_range.mpr hi, hbound⟩
  unfold droppable
  rw [← Finset.add_sum_erase _ _ hmem, ← Finset.add_sum_erase _ _ hmem,
    Tally.getD_modify _ (hlen ▸ hi), if_pos rfl]
  have hrest : ∀ j ≠ i, (counts.modify i (· - 1)).getD j 0 = counts.getD j 0 := by
    intro j hj
    rw [Tally.getD_modify _ (hlen ▸ hi), if_neg hj]
  rw [Finset.sum_congr rfl fun j hj => hrest j (Finset.ne_of_mem_erase hj)]
  omega

/-- **All surplus layers are dropped** when the nodes below the bound have
that many. -/
theorem dropLayers_sum_iff (hf : f.Lawful) (hs : SaneSpeeds f cs) {surplus : ℕ}
    (hlen : counts.length = cs.length) :
    (dropLayers f cs surplus counts).sum + surplus = counts.sum ↔
      surplus ≤ droppable f cs counts := by
  induction surplus generalizing counts with
  | zero => exact ⟨fun _ => Nat.zero_le _, fun _ => rfl⟩
  | succ surplus ih =>
    unfold dropLayers
    cases hpick : slowestWithLayers f cs counts with
    | none =>
      dsimp only
      constructor
      · intro h
        omega
      · intro hle
        -- a node below the bound would have been found
        have hpos : 0 < droppable f cs counts := by omega
        obtain ⟨j, hj, hjpos⟩ := Finset.exists_ne_zero_of_sum_ne_zero (Nat.pos_iff_ne_zero.mp hpos)
        obtain ⟨hj, hbound⟩ := Finset.mem_filter.mp hj
        obtain ⟨i, hsome⟩ := exists_slowestWithLayers hf hs (Finset.mem_range.mp hj)
          (Nat.pos_of_ne_zero hjpos) hbound
        rw [hpick] at hsome
        cases hsome
    | some i =>
      obtain ⟨hi, hpos, hbound, -⟩ := slowestWithLayers_spec hf hs hpick
      have hlen' : (counts.modify i (· - 1)).length = cs.length := by
        rw [List.length_modify, hlen]
      have hstep := ih hlen'
      have hsum := Tally.sum_modify_pred hpos
      have hdrop := droppable_modify hlen hi hpos hbound
      dsimp only
      omega

/-! ## The counts of a schedule -/

theorem shareTotal_eq : shareTotal f input cs =
    ∑ i ∈ Finset.range cs.length, shareAt f input cs i := by
  rw [shareTotal, Tally.sum_eq_sum_range, length_clampedShares]
  rfl

theorem Fits.sum_le_capacity (h : Fits input cs counts) : counts.sum ≤ capacity input cs := by
  rw [Tally.sum_eq_sum_range, h.length]
  exact Finset.sum_le_sum fun i _ => h.le i

theorem redistributeLayers_eq_ok : redistributeLayers f input cs counts = .ok settled ↔
    ∃ added, addLayers f input cs (input.modelConfig.numLayers - counts.sum) counts = .ok added ∧
      settled = dropLayers f cs (added.sum - input.modelConfig.numLayers) added ∧
      settled.sum = input.modelConfig.numLayers := by
  refine except_bind_eq_ok.trans (exists_congr fun added => and_congr_right fun _ => ?_)
  dsimp only
  split
  · rename_i htotal
    constructor
    · rintro ⟨⟩
      exact ⟨rfl, htotal⟩
    · rintro ⟨rfl, -⟩
      rfl
  · rename_i hne
    constructor
    · rintro ⟨⟩
    · rintro ⟨rfl, htotal⟩
      exact absurd htotal hne

/-- **Which nodes get a layer** in auto mode. -/
theorem pos_iff_getsLayer (hf : f.Lawful) (hs : SaneSpeeds f cs)
    (h : redistributeLayers f input cs (clampedShares f input cs) = .ok counts) (hi : i < cs.length) :
    0 < counts.getD i 0 ↔ GetsLayer f input cs i := by
  obtain ⟨added, hadd, rfl, htotal⟩ := redistributeLayers_eq_ok.mp h
  obtain ⟨hfits, hsum, -⟩ := addLayers_eq_ok fits_clampedShares hadd
  have himem := Finset.mem_range.mpr hi
  unfold GetsLayer
  split
  · -- layers are missing: the fastest nodes are filled first
    rename_i hmissing
    rw [shareTotal] at hmissing
    have hsurplus : added.sum - input.modelConfig.numLayers = 0 := by omega
    obtain ⟨x, hx, hcounts⟩ := addLayers_filled (x := fun _ => 0) hf hs length_clampedShares
      (k := shareAt f input cs) (fun i _ => rfl) filled_zero hadd
    have htaken : ∑ j ∈ Finset.range cs.length, x j =
        input.modelConfig.numLayers - shareTotal f input cs := by
      have hall : added.sum = ∑ j ∈ Finset.range cs.length, (shareAt f input cs j + x j) := by
        rw [Tally.sum_eq_sum_range, hfits.length]
        exact Finset.sum_congr rfl fun j hj => hcounts j (Finset.mem_range.mp hj)
      rw [Finset.sum_add_distrib, ← shareTotal_eq] at hall
      rw [shareTotal] at hall ⊢
      omega
    rw [hsurplus, dropLayers, hcounts i hi, ← htaken]
    by_cases hshare : 0 < shareAt f input cs i
    · exact ⟨fun _ => .inl hshare, fun _ => by omega⟩
    · have hzero : shareAt f input cs i = 0 := by omega
      rw [hzero, Nat.zero_add]
      by_cases hceil : 0 < ceilingAt input cs i
      · have hpos := hx.pos_iff (fun i _ j _ => prefers_total)
          (fun i _ j _ => prefers_asymm (compares_gt hf)) himem (by omega)
        rw [hpos]
        exact ⟨fun hlt => .inr ⟨hceil, hlt⟩, fun hor => (hor.resolve_left (by omega)).2⟩
      · have hle := hx.le i himem
        constructor
        · intro hpos
          omega
        · rintro (hpos | ⟨hpos, -⟩)
          · omega
          · exact absurd hpos hceil
  · -- layers are given up: the slowest nodes are emptied first
    rename_i hsurplus
    rw [shareTotal] at hsurplus
    have hnone : input.modelConfig.numLayers - (clampedShares f input cs).sum = 0 := by omega
    rw [hnone] at hadd
    cases hadd
    set dropped := dropLayers f cs ((clampedShares f input cs).sum - input.modelConfig.numLayers)
      (clampedShares f input cs)
    have hdropped : dropped.sum + ((clampedShares f input cs).sum - input.modelConfig.numLayers) =
        (clampedShares f input cs).sum := by omega
    obtain ⟨x, hx, hcounts⟩ := dropLayers_filled (x := fun _ => 0) (k := shareAt f input cs) hf hs
      length_clampedShares (fun i _ => rfl) filled_zero hdropped
    have htaken : ∑ j ∈ Finset.range cs.length, x j =
        shareTotal f input cs - input.modelConfig.numLayers := by
      have hall : ∑ j ∈ Finset.range cs.length, (dropped.getD j 0 + x j) =
          shareTotal f input cs := by
        rw [shareTotal_eq]
        exact Finset.sum_congr rfl fun j hj => hcounts j (Finset.mem_range.mp hj)
      have hlen' : dropped.length = cs.length := (dropLayers_le _ _).1.trans length_clampedShares
      rw [Finset.sum_add_distrib, ← hlen', ← Tally.sum_eq_sum_range, hlen'] at hall
      rw [shareTotal] at hall ⊢
      omega
    have hix : dropped.getD i 0 + x i = shareAt f input cs i := hcounts i hi
    rw [← htaken]
    by_cases hshare : 0 < shareAt f input cs i
    · have hlt := hx.lt_iff (fun i _ j _ => prefers_total)
        (fun i _ j _ => prefers_asymm (compares_lt hf)) himem hshare
      rw [← hlt]
      exact ⟨fun hpos => ⟨hshare, by omega⟩, fun hboth => by omega⟩
    · constructor
      · intro hpos
        omega
      · exact fun hboth => absurd hboth.1 hshare

/-- **When the layers can be shared out.** -/
theorem exists_redistributed_iff (hf : f.Lawful) (hs : SaneSpeeds f cs)
    (hfits : Fits input cs counts) :
    (∃ settled, redistributeLayers f input cs counts = .ok settled) ↔
      input.modelConfig.numLayers ≤ capacity input cs ∧
        counts.sum - input.modelConfig.numLayers ≤ droppable f cs counts := by
  have hdrop : (dropLayers f cs (counts.sum - input.modelConfig.numLayers) counts).sum +
      (counts.sum - input.modelConfig.numLayers) = counts.sum ↔ _ :=
    dropLayers_sum_iff hf hs hfits.length
  constructor
  · rintro ⟨settled, h⟩
    obtain ⟨added, hadd, rfl, htotal⟩ := redistributeLayers_eq_ok.mp h
    obtain ⟨hfits', hsum, -⟩ := addLayers_eq_ok hfits hadd
    have hcap := hfits'.sum_le_capacity
    refine ⟨by omega, ?_⟩
    rcases Nat.le_total counts.sum input.modelConfig.numLayers with hle | hge
    · omega
    · have hnone : input.modelConfig.numLayers - counts.sum = 0 := by omega
      rw [hnone] at hadd
      cases hadd
      exact hdrop.mp (by omega)
  · rintro ⟨hcap, hsurplus⟩
    obtain ⟨added, hadd⟩ : ∃ added, addLayers f input cs
        (input.modelConfig.numLayers - counts.sum) counts = .ok added := by
      rcases Nat.le_total counts.sum input.modelConfig.numLayers with hle | hge
      · refine addLayers_isOk hf hs hfits.length ?_
        rw [capacity] at hcap
        omega
      · rw [Nat.sub_eq_zero_of_le hge]
        exact ⟨counts, rfl⟩
    obtain ⟨-, hsum, -⟩ := addLayers_eq_ok hfits hadd
    refine ⟨_, redistributeLayers_eq_ok.mpr ⟨added, hadd, rfl, ?_⟩⟩
    rcases Nat.le_total counts.sum input.modelConfig.numLayers with hle | hge
    · rw [show added.sum - input.modelConfig.numLayers = 0 by omega]
      show added.sum = _
      omega
    · rw [Nat.sub_eq_zero_of_le hge] at hadd
      cases hadd
      have hdropped := hdrop.mpr hsurplus
      omega

/-- **Redistribution succeeds exactly when the layers fit.** Where the
speeds are numbers between the two bounds of the searches, as positive
speeds below the greatest number are, and no count is above its ceiling,
the loops end with an error only if the nodes cannot hold the layers
together. Otherwise the counts settle under the ceilings, all of them
having grown or all having shrunk. -/
theorem redistributeLayers_spec (f : F32 F) (hf : f.Lawful) (input : SchedulerInput F)
    (cs : List (WorkerCapabilities F)) (counts : List ℕ)
    (hspeed : ∀ w ∈ cs, f.isNan (speed f w) = false ∧ f.lt f.least (speed f w) = true ∧
      f.lt (speed f w) f.greatest = true) (hfits : Fits input cs counts) :
    ((∃ e, redistributeLayers f input cs counts = .error e) ↔
        capacity input cs < input.modelConfig.numLayers) ∧
      ∀ settled, redistributeLayers f input cs counts = .ok settled →
        Settled input cs settled ∧
          (counts.sum ≤ input.modelConfig.numLayers →
            ∀ i, counts.getD i 0 ≤ settled.getD i 0) ∧
          (input.modelConfig.numLayers ≤ counts.sum →
            ∀ i, settled.getD i 0 ≤ counts.getD i 0) := by
  have hs : SaneSpeeds f cs := fun w hw => ⟨(hspeed w hw).1, (hspeed w hw).2.1⟩
  -- every node is below the bound, so all layers can be dropped
  have hall : droppable f cs counts = counts.sum := by
    rw [droppable, Finset.filter_true_of_mem, Tally.sum_eq_sum_range, hfits.length]
    intro i hi
    obtain ⟨w, hw⟩ := exists_of_lt_length (Finset.mem_range.mp hi)
    rw [speedAt, hw]
    exact (hspeed w (List.mem_of_getElem? hw)).2.2
  have hok := exists_redistributed_iff hf hs hfits
  rw [hall, and_iff_left (Nat.sub_le _ _)] at hok
  constructor
  · rw [← Nat.not_le, ← hok]
    cases redistributeLayers f input cs counts with
    | error e => exact ⟨fun _ => by rintro ⟨_, ⟨⟩⟩, fun _ => ⟨e, rfl⟩⟩
    | ok settled => exact ⟨by rintro ⟨_, ⟨⟩⟩, fun hnot => absurd ⟨settled, rfl⟩ hnot⟩
  · intro settled h
    refine ⟨settled_of_redistributeLayers hfits h, ?_⟩
    obtain ⟨added, hadd, rfl, -⟩ := redistributeLayers_eq_ok.mp h
    obtain ⟨-, hsum, hmore⟩ := addLayers_eq_ok hfits hadd
    constructor
    · intro hle i
      rw [show added.sum - input.modelConfig.numLayers = 0 by omega]
      exact hmore i
    · intro hge i
      rw [Nat.sub_eq_zero_of_le hge] at hadd
      cases hadd
      exact (dropLayers_le _ _).2 i

theorem redistributeLayers_spec_autoInput :
    ¬ ∃ e, redistributeLayers F32.exact autoInput (candidates autoInput)
      (clampedShares F32.exact autoInput (candidates autoInput)) = .error e := by
  have hspeed : ∀ w ∈ candidates autoInput, F32.exact.isNan (speed F32.exact w) = false ∧
      F32.exact.lt F32.exact.least (speed F32.exact w) = true ∧
      F32.exact.lt (speed F32.exact w) F32.exact.greatest = true := by decide +kernel
  rw [(redistributeLayers_spec F32.exact F32.exact_lawful autoInput _ _ hspeed
    fits_clampedShares).1]
  decide +kernel

end Layers

end Fracture
