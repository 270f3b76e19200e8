import Fracture.Engine.Single

/-!
# Backends that act row by row

The embedding, the norms, the projections, the rotary embedding and the
element-wise operations treat each row of a tensor on its own. Then a
packed batch can be taken apart: the logical pass of two groups of
sequences together succeeds exactly when it does for each group, and
gives their results one behind the other. Attention is never packed, so
nothing is asked of it here.
-/

namespace Fracture

open Effect Rows

variable {R W F : Type}

/-- An operation on two tensors laid one behind the other succeeds when
it does on both, and gives the two results one behind the other. -/
def ActsByRow {α β : Type} (f : List α → Except Fault (List β)) : Prop :=
  ∀ xs ys, Splits (fun t s u => t = s ++ u) (f (xs ++ ys)) (f xs) (f ys)

/-- The same for an operation on two tensors with the same rows. -/
def ActsByRow₂ {α β γ : Type} (f : List α → List β → Except Fault (List γ)) : Prop :=
  ∀ {xs ys xs' ys'}, xs.length = xs'.length → ys.length = ys'.length →
    Splits (fun t s u => t = s ++ u) (f (xs ++ ys) (xs' ++ ys')) (f xs xs') (f ys ys')

/-- A backend whose operations other than attention act row by row. -/
structure Backend.RowWise (b : Backend R W F) : Prop where
  embedding : ∀ w, ActsByRow fun ids => b.embedding ids w
  rmsnorm : ∀ w eps, ActsByRow fun x => b.rmsnorm x w eps
  matmul : ∀ w, ActsByRow fun x => b.matmul x w
  rope : ∀ theta headDim {q₁ q₂ k₁ k₂ ps₁ ps₂}, q₁.length = ps₁.length → k₁.length = ps₁.length →
    q₂.length = ps₂.length → k₂.length = ps₂.length →
    Splits (fun t s u => t.1 = s.1 ++ u.1 ∧ t.2 = s.2 ++ u.2)
      (b.rope (q₁ ++ q₂) (k₁ ++ k₂) (ps₁ ++ ps₂) theta headDim)
      (b.rope q₁ k₁ ps₁ theta headDim) (b.rope q₂ k₂ ps₂ theta headDim)
  siluMul : ActsByRow₂ b.siluMul
  add : ActsByRow₂ b.add

/-! ## The arithmetic of a layer -/

variable {b : Backend R W F} {x₁ : List R}

section

variable (hb : b.Sound) (hrow : b.RowWise) {cfg : ModelConfig}
  (hwidth : cfg.numQHeads * cfg.headDim = cfg.hiddenSize) (w : LayerWeights W) {x₂ : List R}
include hb hrow hwidth

theorem qkv_split {ps₁ ps₂ : List ℕ} (h₁ : x₁.length = ps₁.length) (h₂ : x₂.length = ps₂.length) :
    Splits (fun t s u => t.1 = s.1 ++ u.1 ∧ t.2.1 = s.2.1 ++ u.2.1 ∧ t.2.2 = s.2.2 ++ u.2.2)
      (qkv b cfg w (ps₁ ++ ps₂) (x₁ ++ x₂)) (qkv b cfg w ps₁ x₁) (qkv b cfg w ps₂ x₂) := by
  simp only [qkv, hwidth, hb.view_self]
  refine (hrow.rmsnorm _ _ x₁ x₂).bind ?_
  rintro _ n₁ n₂ rfl hn₁ hn₂
  refine (hrow.matmul _ n₁ n₂).bind ?_
  rintro _ q₁ q₂ rfl hq₁ hq₂
  refine (hrow.matmul _ n₁ n₂).bind ?_
  rintro _ k₁ k₂ rfl hk₁ hk₂
  refine (hrow.matmul _ n₁ n₂).bind ?_
  rintro _ v₁ v₂ rfl - -
  have hlen₁ := hb.rmsnorm_length hn₁
  have hlen₂ := hb.rmsnorm_length hn₂
  have hlenq₁ := hb.matmul_length hq₁
  have hlenq₂ := hb.matmul_length hq₂
  have hlenk₁ := hb.matmul_length hk₁
  have hlenk₂ := hb.matmul_length hk₂
  refine (hrow.rope _ _ (by omega) (by omega) (by omega) (by omega)).bind ?_
  rintro ⟨q, k⟩ ⟨q₁', k₁'⟩ ⟨q₂', k₂'⟩ ⟨hq, hk⟩ - -
  exact .ok ⟨hq, hk, rfl⟩

theorem finishLayer_split {a₁ a₂ : List R} (h₁ : a₁.length = x₁.length) (h₂ : a₂.length = x₂.length) :
    Splits (fun t s u => t = s ++ u) (finishLayer b cfg w (x₁ ++ x₂) (a₁ ++ a₂))
      (finishLayer b cfg w x₁ a₁) (finishLayer b cfg w x₂ a₂) := by
  simp only [finishLayer, hwidth, hb.view_self]
  refine (hrow.matmul _ a₁ a₂).bind ?_
  rintro _ p₁ p₂ rfl hp₁ hp₂
  have hlen₁ := hb.matmul_length hp₁
  have hlen₂ := hb.matmul_length hp₂
  refine (hrow.add (by omega) (by omega)).bind ?_
  rintro _ y₁ y₂ rfl hy₁ hy₂
  refine (hrow.rmsnorm _ _ y₁ y₂).bind ?_
  rintro _ n₁ n₂ rfl hn₁ hn₂
  refine (hrow.matmul _ n₁ n₂).bind ?_
  rintro _ g₁ g₂ rfl hg₁ hg₂
  refine (hrow.matmul _ n₁ n₂).bind ?_
  rintro _ u₁ u₂ rfl hu₁ hu₂
  have hleng₁ := hb.matmul_length hg₁
  have hleng₂ := hb.matmul_length hg₂
  have hlenu₁ := hb.matmul_length hu₁
  have hlenu₂ := hb.matmul_length hu₂
  refine (hrow.siluMul (by omega) (by omega)).bind ?_
  rintro _ m₁ m₂ rfl hm₁ hm₂
  refine (hrow.matmul _ m₁ m₂).bind ?_
  rintro _ o₁ o₂ rfl ho₁ ho₂
  have hlenn₁ := hb.rmsnorm_length hn₁
  have hlenn₂ := hb.rmsnorm_length hn₂
  have hlenm₁ := hb.siluMul_length hm₁
  have hlenm₂ := hb.siluMul_length hm₂
  have hleno₁ := hb.matmul_length ho₁
  have hleno₂ := hb.matmul_length ho₂
  exact hrow.add (by omega) (by omega)

end

/-! ## Two groups of sequences -/

/-- A sequence's place behind `n` rows of other sequences. -/
def Placed.shift (n : ℕ) (p : Placed) : Placed :=
  { p with start := p.start + n, stop := p.stop + n }

/-- The keys and values of two groups, one behind the other. -/
def joinRows (r₁ r₂ : Kv → List R) : Kv → List R := fun kv => r₁ kv ++ r₂ kv

theorem pick_append (k₁ k₂ v₁ v₂ : List R) :
    Kv.pick (k₁ ++ k₂) (v₁ ++ v₂) = joinRows (Kv.pick k₁ v₁) (Kv.pick k₂ v₂) := by
  funext kv
  cases kv <;> rfl

theorem Placed.rows_shift {n : ℕ} (hx : x₁.length = n) (p : Placed) (x₂ : List R) :
    (p.shift n).rows (x₁ ++ x₂) = p.rows x₂ := by
  subst hx
  have hcount : (p.shift x₁.length).count = p.count := by
    simp only [Placed.shift, Placed.count]
    omega
  rw [Placed.rows, hcount]
  exact window_append_right x₁ x₂ p.start p.count

section Groups

variable {L : Logical R} {P₁ P₂ : List Placed} {n m : ℕ}

theorem Tiles.rows_append_left (h : Tiles 0 P₁ n) {p : Placed} (hp : p ∈ P₁) (hx : x₁.length = n)
    (x₂ : List R) : p.rows (x₁ ++ x₂) = p.rows x₁ := by
  obtain ⟨-, hle, hstop⟩ := h.bounds hp
  exact window_append_left (by rw [Placed.count]; omega) x₂

variable {l : ℕ} {placed : List Placed}

theorem attendPlaced_split (b : Backend R W F) (numKvHeads l : ℕ) (h₁ : Tiles 0 P₁ n)
    {q₁ q₂ : List R} (hq₁ : q₁.length = n) {r₁ r₂ : Kv → List R}
    (hr₁ : ∀ kv, (r₁ kv).length = n) :
    Splits (fun t s u => t = s ++ u)
      (attendPlaced b numKvHeads L l (P₁ ++ P₂.map (Placed.shift n)) (q₁ ++ q₂) (joinRows r₁ r₂))
      (attendPlaced b numKvHeads L l P₁ q₁ r₁) (attendPlaced b numKvHeads L l P₂ q₂ r₂) := by
  refine (Splits.mapM_append (fun p hp => ?_) fun p _ => ?_).bind ?_
  · have hrows : (fun kv => L p.handle l kv ++ p.rows (joinRows r₁ r₂ kv)) =
        fun kv => L p.handle l kv ++ p.rows (r₁ kv) := by
      funext kv
      rw [joinRows, h₁.rows_append_left hp (hr₁ kv)]
    rw [h₁.rows_append_left hp hq₁, hrows]
  · have hrows : (fun kv => L (p.shift n).handle l kv ++ (p.shift n).rows (joinRows r₁ r₂ kv)) =
        fun kv => L p.handle l kv ++ p.rows (r₂ kv) := by
      funext kv
      rw [joinRows, Placed.rows_shift (hr₁ kv)]
      rfl
    rw [Placed.rows_shift hq₁, hrows]
  · rintro _ parts₁ parts₂ rfl - -
    exact .ok List.flatten_append

/-- The last row of a sequence with a row is the last of its own rows. -/
theorem projectEnds_split (b : Backend R W F) (weights : WeightStore W) (h₁ : Tiles 0 P₁ n)
    (hrows₁ : ∀ p ∈ P₁, p.start < p.stop) (hrows₂ : ∀ p ∈ P₂, p.start < p.stop)
    {n₁ n₂ : List R} (hn₁ : n₁.length = n) :
    Splits (fun t s u => t = s ++ u)
      (projectEnds b weights (P₁ ++ P₂.map (Placed.shift n)) (n₁ ++ n₂))
      (projectEnds b weights P₁ n₁) (projectEnds b weights P₂ n₂) := by
  have hsub : ∀ {p : Placed}, p.start < p.stop → checkedSub p.stop 1 = .ok (p.stop - 1) :=
    fun h => checkedSub_eq_ok.2 ⟨by omega, rfl⟩
  refine Splits.mapM_append (fun p hp => ?_) fun p hp => ?_
  · have hlast := hrows₁ p hp
    have hstop := (h₁.bounds hp).2.2
    rw [hsub hlast, except_ok_bind, except_ok_bind, window_append_left (by omega)]
  · have hlast := hrows₂ p hp
    have hshift : (p.shift n).stop - 1 = p.stop - 1 + n₁.length := by
      simp only [Placed.shift]
      omega
    rw [hsub (p := p.shift n) (by simp only [Placed.shift]; omega), hsub hlast,
      except_ok_bind, except_ok_bind, hshift, window_append_right]

variable (hb : b.Sound)
include hb

/-- Attention of a batch gives one row for each row of the batch. -/
theorem length_attendPlaced {numKvHeads offset total : ℕ} (htiles : Tiles offset placed total)
    {q a : List R} (hq : q.length = total) {packed : Kv → List R}
    (hok : attendPlaced b numKvHeads L l placed q packed = .ok a) : offset + a.length = total := by
  induction placed generalizing offset a with
  | nil =>
    cases hok
    exact htiles
  | cons p rest ih =>
    obtain ⟨parts, hparts, hok⟩ := except_bind_eq_ok.1 hok
    rw [List.mapM_cons] at hparts
    obtain ⟨part, hpart, hparts⟩ := except_bind_eq_ok.1 hparts
    obtain ⟨more, hmore, hparts⟩ := except_bind_eq_ok.1 hparts
    cases hparts
    cases hok
    obtain ⟨hstart, hle, hrest⟩ := htiles
    have hlen : part.length = p.count := by
      rw [hb.attentionPaged_length hpart]
      exact length_window (by have := hrest.le; rw [Placed.count]; omega)
    have := ih hrest (except_bind_eq_ok.2 ⟨more, hmore, rfl⟩)
    rw [List.flatten_cons, List.length_append, hlen, Placed.count]
    omega

section

variable {cfg : ModelConfig} {positions : List ℕ} {x y : List R}

theorem length_runLayer {w : LayerWeights W} {rows : Kv → List R}
    (hok : runLayer b cfg L placed positions w l x = .ok (y, rows)) :
    y.length = x.length ∧ ∀ kv, (rows kv).length = x.length := by
  obtain ⟨⟨q, k, v⟩, hqkv, hok⟩ := except_bind_eq_ok.1 hok
  obtain ⟨attnOut, -, hok⟩ := except_bind_eq_ok.1 hok
  obtain ⟨y', hy, hok⟩ := except_bind_eq_ok.1 hok
  cases hok
  obtain ⟨-, hk, hv⟩ := length_qkv hb hqkv
  refine ⟨length_finishLayer hb hy, ?_⟩
  rintro ⟨⟩
  · exact hk
  · exact hv

theorem length_rows_runLayers {ws : List (LayerWeights W)} {packed : List (Kv → List R)}
    (hok : runLayers b cfg L placed positions ws l x = .ok (y, packed)) :
    y.length = x.length ∧ ∀ rows ∈ packed, ∀ kv, (rows kv).length = x.length := by
  induction ws generalizing l x packed with
  | nil =>
    cases hok
    simp
  | cons w ws ih =>
    obtain ⟨⟨x₁, rows₁⟩, hlayer, hok⟩ := except_bind_eq_ok.1 hok
    obtain ⟨⟨x₂, more⟩, hmore, hok⟩ := except_bind_eq_ok.1 hok
    cases hok
    obtain ⟨hx₁, hrows₁⟩ := length_runLayer hb hlayer
    obtain ⟨hx₂, hmoreRows⟩ := ih hmore
    refine ⟨hx₂.trans hx₁, fun rows hrows => ?_⟩
    rcases List.mem_cons.1 hrows with rfl | hrows
    · exact hrows₁
    · rw [← hx₁]
      exact hmoreRows rows hrows

end

variable {ps₁ ps₂ : List ℕ} (hrow : b.RowWise) (h₁ : Tiles 0 P₁ n) (h₂ : Tiles 0 P₂ m)
  (hps₁ : ps₁.length = n) (hps₂ : ps₂.length = m)
include hrow h₁ h₂ hps₁ hps₂

section

variable {cfg : ModelConfig} (hwidth : cfg.numQHeads * cfg.headDim = cfg.hiddenSize) (l : ℕ)
  {x₂ : List R} (hx₁ : x₁.length = n) (hx₂ : x₂.length = m)
include hwidth hx₁ hx₂

/-- **A layer of two groups is a layer of each.** -/
theorem runLayer_split (w : LayerWeights W) :
    Splits (fun t s u => t.1 = s.1 ++ u.1 ∧ t.2 = joinRows s.2 u.2)
      (runLayer b cfg L (P₁ ++ P₂.map (Placed.shift n)) (ps₁ ++ ps₂) w l (x₁ ++ x₂))
      (runLayer b cfg L P₁ ps₁ w l x₁) (runLayer b cfg L P₂ ps₂ w l x₂) := by
  refine (qkv_split hb hrow hwidth w (by omega) (by omega)).bind ?_
  rintro ⟨q, k, v⟩ ⟨q₁, k₁, v₁⟩ ⟨q₂, k₂, v₂⟩ ⟨hq, hk, hv⟩ hok₁ hok₂
  subst hq hk hv
  obtain ⟨hq₁, hk₁, hv₁⟩ := length_qkv hb hok₁
  obtain ⟨hq₂, -, -⟩ := length_qkv hb hok₂
  have hpicked : ∀ kv, (Kv.pick k₁ v₁ kv).length = n := by
    rintro ⟨⟩
    · exact hk₁.trans hx₁
    · exact hv₁.trans hx₁
  dsimp only
  rw [pick_append]
  refine (attendPlaced_split b cfg.numKvHeads l h₁ (hq₁.trans hx₁) hpicked).bind ?_
  rintro _ a₁ a₂ rfl ha₁ ha₂
  have hlen₁ := length_attendPlaced hb h₁ (hq₁.trans hx₁) ha₁
  have hlen₂ := length_attendPlaced hb h₂ (hq₂.trans hx₂) ha₂
  refine (finishLayer_split hb hrow hwidth w (by omega) (by omega)).bind ?_
  rintro _ y₁ y₂ rfl - -
  exact .ok ⟨rfl, rfl⟩

theorem runLayers_split (ws : List (LayerWeights W)) :
    Splits (fun t s u => t.1 = s.1 ++ u.1 ∧ t.2 = List.zipWith joinRows s.2 u.2 ∧
        s.1.length = n ∧ u.1.length = m)
      (runLayers b cfg L (P₁ ++ P₂.map (Placed.shift n)) (ps₁ ++ ps₂) ws l (x₁ ++ x₂))
      (runLayers b cfg L P₁ ps₁ ws l x₁) (runLayers b cfg L P₂ ps₂ ws l x₂) := by
  induction ws generalizing l x₁ x₂ with
  | nil => exact .ok ⟨rfl, rfl, hx₁, hx₂⟩
  | cons w ws ih =>
    refine (runLayer_split hb hrow h₁ h₂ hps₁ hps₂ hwidth l hx₁ hx₂ w).bind ?_
    rintro ⟨x, rows⟩ ⟨y₁, r₁⟩ ⟨y₂, r₂⟩ ⟨hx, hrows⟩ hok₁ hok₂
    subst hx hrows
    have hy₁ := (length_runLayer hb hok₁).1
    have hy₂ := (length_runLayer hb hok₂).1
    refine (ih (l + 1) (hy₁.trans hx₁) (hy₂.trans hx₂)).bind ?_
    rintro ⟨x, packed⟩ ⟨z₁, p₁⟩ ⟨z₂, p₂⟩ ⟨hx, hpacked, hz₁, hz₂⟩ - -
    subst hx hpacked
    exact .ok ⟨rfl, rfl, hz₁, hz₂⟩

end

/-- **The pass of two groups is the pass of each.** -/
theorem runModel_split {weights : WeightStore W}
    (hwidth : weights.config.numQHeads * weights.config.headDim = weights.config.hiddenSize)
    (hrows₁ : ∀ p ∈ P₁, p.start < p.stop)
    (hrows₂ : ∀ p ∈ P₂, p.start < p.stop) {ids₁ ids₂ : List ℕ} (hids₁ : ids₁.length = n)
    (hids₂ : ids₂.length = m) :
    Splits (fun t s u => t.1 = s.1 ++ u.1 ∧ t.2 = List.zipWith joinRows s.2 u.2)
      (runModel b weights L (P₁ ++ P₂.map (Placed.shift n)) (ids₁ ++ ids₂) (ps₁ ++ ps₂))
      (runModel b weights L P₁ ids₁ ps₁) (runModel b weights L P₂ ids₂ ps₂) := by
  refine (hrow.embedding _ ids₁ ids₂).bind ?_
  rintro _ x₁ x₂ rfl hx₁ hx₂
  refine (runLayers_split hb hrow h₁ h₂ hps₁ hps₂ hwidth 0
    ((hb.embedding_length hx₁).trans hids₁) ((hb.embedding_length hx₂).trans hids₂) _).bind ?_
  rintro ⟨y, packed⟩ ⟨y₁, p₁⟩ ⟨y₂, p₂⟩ ⟨hy, hpacked, hy₁, -⟩ - -
  dsimp only at hy hpacked hy₁ ⊢
  subst hy hpacked
  unfold runOutput
  rw [bind_assoc, bind_assoc, bind_assoc]
  refine (hrow.rmsnorm _ _ y₁ y₂).bind ?_
  rintro _ n₁ n₂ rfl hn₁ -
  refine (projectEnds_split b weights h₁ hrows₁ hrows₂
    ((hb.rmsnorm_length hn₁).trans hy₁)).bind ?_
  rintro _ l₁ l₂ rfl - -
  exact .ok ⟨rfl, rfl⟩

end Groups

end Fracture
