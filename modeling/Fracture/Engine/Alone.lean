import Fracture.Engine.RowWise

/-!
# A batch and its sequences alone

On a backend that acts row by row, a batch gives each of its sequences
the logits it would get alone, and leaves it the cache it would leave
alone. Both sides are compared with `runSlice`, the logical pass of one
sequence: the batch because a packed pass comes apart, the sequences one
after the other because each of them reads only its own rows.
-/

namespace Fracture

open Effect Rows PagedKvCacheManager

variable {R W F : Type} {b : Backend R W F}

/-- The logical pass of one sequence of a batch alone. -/
def runSlice (b : Backend R W F) (weights : WeightStore W) (L : Logical R)
    (len : CacheHandle → ℕ) (s : SequenceSlice) :
    Except Fault (List F × List (Kv → List R)) := do
  let (logits, packed) ← runModel b weights L (placedBy len [s]) s.tokenIds s.positions
  return (logits.flatten, packed)

/-! ## Placing a sequence in front -/

section Placing

variable {len : CacheHandle → ℕ} {slices : List SequenceSlice}

theorem place_shift (offset n : ℕ) (parts : List (CacheHandle × ℕ)) (starts : List ℕ) :
    place (offset + n) parts starts = (place offset parts starts).map (Placed.shift n) := by
  induction parts generalizing offset starts with
  | nil => rfl
  | cons part rest ih =>
    obtain _ | ⟨startPos, more⟩ := starts
    · rfl
    · have hnext : offset + n + part.2 = offset + part.2 + n := by omega
      rw [place, place, List.map_cons, hnext, ih]
      rfl

theorem placedBy_cons (len : CacheHandle → ℕ) (s : SequenceSlice) (slices : List SequenceSlice) :
    placedBy len (s :: slices) =
      placedBy len [s] ++ (placedBy len slices).map (Placed.shift s.tokenIds.length) := by
  rw [placedBy_singleton]
  unfold placedBy
  rw [← place_shift, List.map_cons, List.map_cons, place, Nat.zero_add]
  rfl

theorem start_lt_stop_placedBy (htokens : ∀ s ∈ slices, s.tokenIds ≠ []) :
    ∀ p ∈ placedBy len slices, p.start < p.stop := by
  intro p hp
  obtain ⟨s, hs, -, -, hcount⟩ := exists_left (forall₂_placedBy len slices) hp
  have hpos := List.length_pos_iff.2 (htokens s hs)
  rw [← hcount, Placed.count] at hpos
  omega

/-- The blocks a sequence of a batch needs beyond those it has. -/
def SequenceSlice.newBlocks (len : CacheHandle → ℕ) (s : SequenceSlice) : ℕ :=
  blocksFor (len s.handle + s.tokenIds.length) - blocksFor (len s.handle)

theorem blocksOn_placedBy (len : CacheHandle → ℕ) (slices : List SequenceSlice) :
    blocksOn 0 (placedBy len slices) = (slices.map (SequenceSlice.newBlocks len)).sum := by
  rw [blocksOn, if_pos rfl]
  refine congrArg List.sum (map_eq_map (forall₂_placedBy len slices).flip fun p s hp => ?_)
  rw [SequenceSlice.newBlocks, Placed.newBlocks, hp.2.1, hp.2.2]

end Placing

/-! ## What the sequences of a batch leave behind -/

/-- `L'` is `L` with the keys and values of each sequence appended. -/
structure Committed (numLayers : ℕ) (L L' : Logical R)
    (results : List (SequenceSlice × List (Kv → List R))) : Prop where
  length : ∀ r ∈ results, r.2.length = numLayers
  fresh : ∀ r ∈ results, ∀ {l rows}, r.2[l]? = some rows → ∀ kv,
    L' r.1.handle l kv = L r.1.handle l kv ++ rows kv
  others : ∀ {h}, h ∉ results.map (·.1.handle) → L' h = L h

namespace Committed

variable {numLayers : ℕ} {L L₁ L₂ : Logical R}
  {results results' : List (SequenceSlice × List (Kv → List R))}

/-- The order of the sequences does not matter. -/
theorem agree (h₁ : Committed numLayers L L₁ results) (h₂ : Committed numLayers L L₂ results')
    (hperm : results.Perm results') (h : CacheHandle) {l : ℕ} (hl : l < numLayers) (kv : Kv) :
    L₁ h l kv = L₂ h l kv := by
  by_cases hmem : h ∈ results.map (·.1.handle)
  · obtain ⟨r, hr, rfl⟩ := List.mem_map.1 hmem
    obtain ⟨rows, hrows⟩ : ∃ rows, r.2[l]? = some rows :=
      ⟨_, List.getElem?_eq_getElem (by rw [h₁.length r hr]; exact hl)⟩
    rw [h₁.fresh r hr hrows, h₂.fresh r (hperm.mem_iff.1 hr) hrows]
  · have hmem' : h ∉ results'.map (·.1.handle) := by
      rwa [(hperm.map _).mem_iff] at hmem
    rw [h₁.others hmem, h₂.others hmem']

/-- One sequence after others. -/
theorem cons {s : SequenceSlice} {packed : List (Kv → List R)}
    (h₁ : Committed numLayers L L₁ [(s, packed)]) (h₂ : Committed numLayers L₁ L₂ results)
    (hs : s.handle ∉ results.map (·.1.handle)) :
    Committed numLayers L L₂ ((s, packed) :: results) := by
  have hself : (s, packed) ∈ [(s, packed)] := List.mem_singleton_self _
  refine ⟨?_, ?_, ?_⟩
  · intro r hr
    rcases List.mem_cons.1 hr with rfl | hr
    · exact h₁.length _ hself
    · exact h₂.length r hr
  · intro r hr l rows hrows kv
    rcases List.mem_cons.1 hr with rfl | hr
    · rw [h₂.others hs, h₁.fresh _ hself hrows]
    · have hne : r.1.handle ∉ [(s, packed)].map (·.1.handle) := by
        rw [List.map_singleton, List.mem_singleton]
        exact fun heq => hs (heq ▸ List.mem_map_of_mem hr)
      rw [h₂.fresh r hr hrows, h₁.others hne]
  · intro h hh
    rw [List.map_cons, List.mem_cons, not_or] at hh
    rw [h₂.others hh.2, h₁.others (by simpa using hh.1)]

end Committed

/-! ## The logical pass of a batch -/

theorem length_runModel (hb : b.Sound) {weights : WeightStore W} {L : Logical R}
    {placed : List Placed} {tokenIds positions : List ℕ} {logits : List (List F)}
    {packed : List (Kv → List R)}
    (hok : runModel b weights L placed tokenIds positions = .ok (logits, packed)) :
    logits.length = placed.length ∧ packed.length = weights.layers.length ∧
      ∀ rows ∈ packed, ∀ kv, (rows kv).length = tokenIds.length := by
  obtain ⟨x, hx, hok⟩ := except_bind_eq_ok.1 hok
  obtain ⟨⟨y, packed'⟩, hlayers, hok⟩ := except_bind_eq_ok.1 hok
  obtain ⟨logits', hlogits, hok⟩ := except_bind_eq_ok.1 hok
  cases hok
  obtain ⟨normed, -, hends⟩ := except_bind_eq_ok.1 hlogits
  refine ⟨length_of_except_mapM hends, length_runLayers hlayers, ?_⟩
  rw [← hb.embedding_length hx]
  exact (length_rows_runLayers hb hlayers).2

/-- The logits of one sequence alone are the only ones of its pass. -/
theorem runSlice_together (hb : b.Sound) (weights : WeightStore W) (L : Logical R)
    (len : CacheHandle → ℕ) (s : SequenceSlice) :
    Related Eq (fun t r => t = ([r.1], r.2))
      (runModel b weights L (placedBy len [s]) s.tokenIds s.positions)
      (runSlice b weights L len s) := by
  unfold runSlice
  cases hok : runModel b weights L (placedBy len [s]) s.tokenIds s.positions with
  | error e => exact .error rfl
  | ok t =>
    obtain ⟨logits, packed⟩ := t
    have hlen := (length_runModel hb hok).1
    rw [placedBy_singleton, List.length_singleton] at hlen
    obtain ⟨values, rfl⟩ := List.length_eq_one_iff.1 hlen
    exact .ok (by simp)

section Batch

variable {weights : WeightStore W} {L : Logical R} {len : CacheHandle → ℕ}
  {slices : List SequenceSlice}

/-- A sequence alone commits its own keys and values. -/
theorem committed_singleton (L : Logical R) (len : CacheHandle → ℕ) {s : SequenceSlice}
    {packed : List (Kv → List R)} {numLayers : ℕ} (hlen : packed.length = numLayers)
    (hrows : ∀ rows ∈ packed, ∀ kv, (rows kv).length = s.tokenIds.length) :
    Committed numLayers L (L.commit (placedBy len [s]) packed) [(s, packed)] := by
  rw [placedBy_singleton]
  refine ⟨fun r hr => ?_, fun r hr l rows hrow kv => ?_, fun {h} hh => ?_⟩
  · rw [List.mem_singleton.1 hr]
    exact hlen
  · rw [List.mem_singleton] at hr
    subst hr
    have hwhole : (Placed.whole s.handle s.tokenIds.length (len s.handle)).rows (rows kv) =
        rows kv := Placed.rows_whole (hrows rows (List.mem_of_getElem? hrow) kv)
    rw [← hwhole]
    exact L.commit_of_mem (by simp) (List.mem_singleton_self _) hrow kv
  · exact L.commit_of_notMem (by simpa [Placed.whole] using hh) packed

/-- A batch commits the keys and values of its first sequence and those
of the rest. -/
theorem committed_cons {s : SequenceSlice} {results : List (SequenceSlice × List (Kv → List R))}
    {packed₁ packed₂ : List (Kv → List R)} {numLayers : ℕ}
    (hnodup : ((s :: slices).map (·.handle)).Nodup) (hlen₁ : packed₁.length = numLayers)
    (hlen₂ : packed₂.length = numLayers)
    (hrows : ∀ rows ∈ packed₁, ∀ kv, (rows kv).length = s.tokenIds.length)
    (hslices : results.map (·.1) = slices)
    (hrest : Committed numLayers L (L.commit (placedBy len slices) packed₂) results) :
    Committed numLayers L
      (L.commit (placedBy len (s :: slices)) (List.zipWith joinRows packed₁ packed₂))
      ((s, packed₁) :: results) := by
  have hnodup' : ((placedBy len (s :: slices)).map (·.handle)).Nodup := by
    rwa [map_handle_placedBy]
  have hhandles : results.map (·.1.handle) = slices.map (·.handle) := by
    rw [← hslices, List.map_map]
    rfl
  have hlayer : ∀ {l}, l < numLayers → ∃ rows₁ rows₂, packed₁[l]? = some rows₁ ∧
      packed₂[l]? = some rows₂ ∧
      (List.zipWith joinRows packed₁ packed₂)[l]? = some (joinRows rows₁ rows₂) := by
    intro l hl
    obtain ⟨rows₁, hrow₁⟩ : ∃ rows, packed₁[l]? = some rows :=
      ⟨_, List.getElem?_eq_getElem (by omega)⟩
    obtain ⟨rows₂, hrow₂⟩ : ∃ rows, packed₂[l]? = some rows :=
      ⟨_, List.getElem?_eq_getElem (by omega)⟩
    exact ⟨rows₁, rows₂, hrow₁, hrow₂, by rw [List.getElem?_zipWith, hrow₁, hrow₂]⟩
  have hlt : ∀ {packed : List (Kv → List R)} {l rows}, packed.length = numLayers →
      packed[l]? = some rows → l < numLayers := fun hlen hrow =>
    hlen ▸ (List.getElem?_eq_some_iff.1 hrow).1
  have hfirst : Placed.whole s.handle s.tokenIds.length (len s.handle) ∈
      placedBy len (s :: slices) := by
    rw [placedBy_cons, placedBy_singleton]
    exact List.mem_cons_self
  refine ⟨?_, ?_, ?_⟩
  · intro r hr
    rcases List.mem_cons.1 hr with rfl | hr
    · exact hlen₁
    · exact hrest.length r hr
  · intro r hr l rows hrow kv
    rcases List.mem_cons.1 hr with rfl | hr
    · obtain ⟨rows₁, rows₂, hrow₁, -, hjoin⟩ := hlayer (hlt hlen₁ hrow)
      cases hrow.symm.trans hrow₁
      have hown := hrows rows (List.mem_of_getElem? hrow) kv
      refine (L.commit_of_mem hnodup' hfirst hjoin kv).trans ?_
      rw [joinRows, tiles_whole.rows_append_left (List.mem_singleton_self _) hown,
        Placed.rows_whole hown]
      rfl
    · obtain ⟨rows₁, rows₂, hrow₁, hrow₂, hjoin⟩ := hlayer (hlt (hrest.length r hr) hrow)
      have hmem : r.1 ∈ slices := hslices ▸ List.mem_map_of_mem hr
      obtain ⟨p, hp, hhandle, -, -⟩ := exists_right (forall₂_placedBy len slices) hmem
      have hshift : p.shift s.tokenIds.length ∈ placedBy len (s :: slices) := by
        rw [placedBy_cons]
        exact List.mem_append_right _ (List.mem_map_of_mem hp)
      have hnodup₂ : ((placedBy len slices).map (·.handle)).Nodup := by
        rw [map_handle_placedBy]
        exact (List.nodup_cons.1 hnodup).2
      have hold := hrest.fresh r hr hrow kv
      rw [← hhandle, L.commit_of_mem hnodup₂ hp hrow₂, List.append_cancel_left_eq] at hold
      rw [← hhandle, ← hold, ← Placed.rows_shift (hrows rows₁ (List.mem_of_getElem? hrow₁) kv)]
      exact L.commit_of_mem hnodup' hshift hjoin kv
  · intro h hh
    refine L.commit_of_notMem ?_ _
    rwa [map_handle_placedBy, List.map_cons, ← hhandles]

/-- **The logical pass of a batch is the pass of each of its sequences.** -/
theorem runModel_each (hb : b.Sound) (hrow : b.RowWise)
    (hwidth : weights.config.numQHeads * weights.config.headDim = weights.config.hiddenSize)
    (hproper : ProperBatch slices) (htokens : ∀ s ∈ slices, s.tokenIds ≠ []) :
    Together
      (fun t rs => t.1 = rs.map (·.1) ∧ rs.length = slices.length ∧
        Committed weights.layers.length L (L.commit (placedBy len slices) t.2)
          (slices.zip (rs.map (·.2))))
      (runModel b weights L (placedBy len slices) (slices.flatMap (·.tokenIds))
        (slices.flatMap (·.positions)))
      (slices.mapM (runSlice b weights L len)) := by
  induction slices with
  | nil => exact absurd rfl hproper.nonempty
  | cons s rest ih =>
    have halone := runSlice_together hb weights L len s
    obtain _ | ⟨s', rest⟩ := rest
    · rw [List.mapM_cons, List.mapM_nil, List.flatMap_cons, List.flatMap_cons, List.flatMap_nil,
        List.flatMap_nil, List.append_nil, List.append_nil]
      simp only [pure_bind]
      refine halone.with_left.together.map_right ?_
      rintro t r ⟨rfl, hok⟩
      obtain ⟨-, hlen, hrows⟩ := length_runModel hb hok
      exact ⟨rfl, rfl, committed_singleton L len hlen hrows⟩
    · have hproper' : ProperBatch (s' :: rest) :=
        ⟨by simp, (List.nodup_cons.1 hproper.nodup).2,
          (List.forall_mem_cons.1 hproper.positions).2⟩
      have htokens' : ∀ s₀ ∈ s' :: rest, s₀.tokenIds ≠ [] := fun s₀ hs₀ =>
        htokens s₀ (List.mem_cons_of_mem s hs₀)
      have htiles := tiles_placedBy len [s]
      rw [show batchTokens [s] = s.tokenIds.length by simp [batchTokens]] at htiles
      have hids₁ : s.tokenIds.length = s.tokenIds.length := rfl
      have hids₂ : ((s' :: rest).flatMap (·.tokenIds)).length = batchTokens (s' :: rest) := rfl
      have hsplit := runModel_split (L := L) hb hrow htiles (tiles_placedBy len (s' :: rest))
        (hproper.positions s List.mem_cons_self) hproper'.length_positions hwidth
        (start_lt_stop_placedBy fun s₀ hs₀ => htokens s₀ (by simp_all))
        (start_lt_stop_placedBy htokens') hids₁ hids₂
      rw [← placedBy_cons, ← List.flatMap_cons, ← List.flatMap_cons] at hsplit
      refine (hsplit.trans halone.together (ih hproper' htokens')).mapM_cons.mono (fun _ _ h => h) ?_
      rintro t rs ⟨r, more, rfl, y, z, ⟨htl, htp⟩, hy, hz, rfl, hlogits, hlen, hcommitted⟩
      obtain ⟨-, hlen₁, hrows₁⟩ := length_runModel hb hy
      have hzip : ((s' :: rest).zip (more.map (·.2))).map (·.1) = s' :: rest :=
        List.map_fst_zip (by rw [List.length_map, hlen])
      refine ⟨by rw [htl, hlogits]; rfl, by rw [List.length_cons, hlen]; rfl, ?_⟩
      rw [htp]
      exact committed_cons hproper.nodup hlen₁ (length_runModel hb hz).2.1 hrows₁ hzip hcommitted

end Batch

end Fracture
