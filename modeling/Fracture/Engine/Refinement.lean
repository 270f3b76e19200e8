import Fracture.Common.Related
import Fracture.Engine.Logical

/-!
# The batched forward pass on the paged cache

The layer loop of a batch, run on a paged cache that shows a logical
cache, computes what `runLayers` computes from the logical cache, and
leaves a paged cache that shows the logical cache with every layer of
the batch committed. The slices it copies and the buffer it gathers
attention in are exact because the sequences tile the batch.
-/

namespace Fracture

open Effect Rows PagedKvCacheManager

variable {R W F : Type} {b : Backend R W F} {c : PagedKvCacheManager R} {L : Logical R}

/-! ## Attention -/

variable {l : ℕ} {q : List R}

/-- On a cache that shows `L`, attention through the block table is
attention over the rows of `L`. -/
theorem dispatchAttention_eq (hb : b.Sound) (hc : c.Views L) {h : CacheHandle} {len : ℕ}
    (hlive : c.lenOf h = some len) (hl : l < c.pool.numLayers) {pos : ℕ}
    (hrows : ∀ kv, (L h l kv).length = pos + q.length) (numKvHeads : ℕ) :
    c.dispatchAttention b q h l numKvHeads (pos + q.length) pos =
      attendRows b numKvHeads q (L h l) := by
  obtain ⟨seq, hseq, -⟩ := lenOf_eq_some.1 hlive
  obtain ⟨seq', hseq', hholds⟩ := hc.stores hseq hl
  cases hseq.symm.trans hseq'
  have htable : c.blockTable h = .ok seq.blockTable := by
    rw [blockTable, find, hseq]
    rfl
  have htensors : ∀ kv, (List.range c.pool.capacity).forM (fun blockId => do
      let _ ← c.pool.tensor kv blockId l) = (.ok () : Except Fault Unit) := by
    refine fun kv => except_forM_ok fun blockId hblock => ?_
    rw [BlockPool.tensor, if_pos ⟨List.mem_range.1 hblock, hl⟩]
    rfl
  have hattn := attentionPaged_eq_attendRows hb hholds (by rw [hrows .v, hrows .k])
    (hrows .k).symm numKvHeads
  unfold dispatchAttention
  rw [htable, except_ok_bind, htensors .k, except_ok_bind, htensors .v, except_ok_bind]
  exact hattn

variable {x : List R}

/-- The rows a sequence gets when its part of a packed tensor is copied
into a tensor of its own. -/
theorem copySlice_eq (hb : b.Reliable) {t : List R} {p : Placed} (ht : t.length = p.count)
    (hle : p.start ≤ p.stop) (hx : p.stop ≤ x.length) :
    b.copyRows x t p.start 0 p.count = .ok (p.rows x) := by
  have hin : p.start + p.count ≤ x.length := by rw [Placed.count]; omega
  rw [hb.copyRows_eq_ok hin (by omega), overwrite_zero_of_length_eq]
  · rfl
  · rw [length_window hin, ht]

variable {placed : List Placed} {total : ℕ} {attnOut : List R}

/-- **Attention of a batch, gathered in the buffer.** Where the sequences
tile the buffer from `offset` on, its rows from there on are the
attention of each sequence over its rows of the logical cache. -/
theorem attendSlices_related (hb : b.Reliable) (hc : c.Views L) (hl : l < c.pool.numLayers)
    {offset : ℕ} (htiles : Tiles offset placed total)
    (hlive : ∀ p ∈ placed, c.lenOf p.handle = some (p.startPos + p.count))
    {rowsOf : Placed → Kv → List R} (hshown : ∀ p ∈ placed, L p.handle l = rowsOf p)
    (hrows : ∀ p ∈ placed, ∀ kv, (rowsOf p kv).length = p.startPos + p.count)
    (hq : q.length = total) (numKvHeads : ℕ) (hout : attnOut.length = total) :
    Related Eq
      (fun attnOut' parts => attnOut'.length = total ∧
        attnOut' = attnOut.take offset ++ parts.flatten)
      (attendSlices b c l numKvHeads q placed attnOut)
      (placed.mapM fun p => attendRows b numKvHeads (p.rows q) (rowsOf p)) := by
  induction placed generalizing offset attnOut with
  | nil =>
    rw [List.mapM_nil]
    refine .ok ⟨hout, ?_⟩
    rw [List.flatten_nil, List.append_nil, htiles, ← hout, List.take_length]
  | cons p rest ih =>
    have hp : p ∈ p :: rest := List.mem_cons_self
    obtain ⟨hstart, hle, htiles'⟩ := htiles
    have hstop : p.stop ≤ total := htiles'.le
    obtain ⟨t, ht⟩ := hb.alloc_ok p.count
    have hslice := copySlice_eq hb (x := q) (hb.alloc_length ht) hle (by omega)
    have hlenq : (p.rows q).length = p.count :=
      length_window (by rw [Placed.count]; omega)
    have hlen : ∀ kv, (L p.handle l kv).length = p.startPos + (p.rows q).length := fun kv => by
      rw [hshown p hp, hrows p hp kv, hlenq]
    have hattn := dispatchAttention_eq hb.toSound hc (hlive p hp) hl hlen numKvHeads
    rw [hlenq, hshown p hp] at hattn
    rw [List.mapM_cons]
    refine .bind_left ht (.bind_left hslice ?_)
    change Related Eq _ (c.dispatchAttention b (p.rows q) p.handle l numKvHeads
      (p.startPos + p.count) p.startPos >>= _) _
    rw [hattn]
    refine .bind_same (fun _ => rfl) fun a ha => ?_
    have halen : a.length = p.count := by
      rw [← hlenq]
      exact hb.attentionPaged_length ha
    have hcopy : b.copyRows a attnOut 0 p.start p.count = .ok (overwrite attnOut p.start a) := by
      rw [hb.copyRows_eq_ok (by omega) (by rw [Placed.count] at halen ⊢; omega), ← halen,
        window_zero_length]
    refine .bind_left hcopy ?_
    have hcount : p.start + a.length = p.stop := by rw [halen, Placed.count]; omega
    have hout' : (overwrite attnOut p.start a).length = total := by
      rw [length_overwrite (by omega), hout]
    refine .map_right (ih htiles' (List.forall_mem_cons.1 hlive).2
      (List.forall_mem_cons.1 hshown).2
      (List.forall_mem_cons.1 hrows).2 hout') ?_
    rintro attnOut' parts ⟨hlen, hparts⟩
    refine ⟨hlen, ?_⟩
    have htake : (overwrite attnOut p.start a).take p.stop = attnOut.take offset ++ a := by
      have hlen : (attnOut.take offset ++ a).length = p.stop := by
        rw [List.length_append, List.length_take]
        omega
      rw [overwrite, hstart, ← hlen, List.take_left]
    rw [hparts, htake, List.flatten_cons, List.append_assoc]

/-! ## Appending -/

/-- The blocks a batch needs, which it takes on layer 0. -/
def blocksOn (l : ℕ) (placed : List Placed) : ℕ :=
  if l = 0 then (placed.map Placed.newBlocks).sum else 0

/-- The length of a sequence before layer `l` of a batch. -/
def Placed.lenBefore (p : Placed) (l : ℕ) : ℕ :=
  if l = 0 then p.startPos else p.startPos + p.count

/-- A cache that shows `L` before layer `l` of a batch: the length has
moved on if this is not the first layer, the rows have not. -/
structure ReadyFor (c : PagedKvCacheManager R) (L : Logical R) (placed : List Placed) (l : ℕ) :
    Prop extends c.Views L where
  layer : l < c.pool.numLayers
  nodup : (placed.map (·.handle)).Nodup
  live : ∀ p ∈ placed, c.lenOf p.handle = some (p.lenBefore l)
  rows : ∀ p ∈ placed, ∀ kv, (L p.handle l kv).length = p.startPos
  free : blocksOn l placed ≤ c.numFreeBlocks

/-- A cache after layer `l` of a batch was appended. -/
structure AppendedTo (c : PagedKvCacheManager R) (L : Logical R) (placed : List Placed) (l : ℕ)
    (packed : Kv → List R) (c' : PagedKvCacheManager R) : Prop
    extends c'.Views (L.appendLayer l placed packed) where
  live : ∀ p ∈ placed, c'.lenOf p.handle = some (p.startPos + p.count)
  moves : Moves (placed.map (·.handle)) (blocksOn l placed) c c'

/-- **The append loop appends one layer of the batch to every sequence.** -/
theorem appendSlices_ok (hb : b.Reliable) (hc : ReadyFor c L placed l) {offset : ℕ}
    (htiles : Tiles offset placed total) {k v : List R} (hk : k.length = total)
    (hv : v.length = total) :
    ∃ c', appendSlices b l k v placed c = .ok () c' ∧
      AppendedTo c L placed l (Kv.pick k v) c' := by
  induction placed generalizing c L offset with
  | nil =>
    refine ⟨c, rfl, ?_, by simp, ?_⟩
    · rw [Logical.appendLayer_nil]
      exact hc.toViews
    · have : blocksOn l [] = 0 := by simp [blocksOn]
      rw [this]
      exact Moves.refl _ c
  | cons p rest ih =>
    obtain ⟨hviews, hl, hnodup, hlive, hrows, hfree⟩ := hc
    obtain ⟨hstart, hle, htiles'⟩ := htiles
    have hp : p ∈ p :: rest := List.mem_cons_self
    have hstop : p.stop ≤ total := htiles'.le
    obtain ⟨hnotMem, hnodup'⟩ := List.nodup_cons.1 (List.map_cons ▸ hnodup)
    have hlen : ∀ {x : List R}, x.length = total → (p.rows x).length = p.count := fun hx =>
      length_window (by rw [Placed.count]; omega)
    have hblocks : blocksOn l (p :: rest) =
        (if l = 0 then p.newBlocks else 0) + blocksOn l rest := by
      unfold blocksOn
      split <;> simp
    obtain ⟨t, ht⟩ := hb.alloc_ok p.count
    have hkSlice := copySlice_eq hb (x := k) (hb.alloc_length ht) hle (by omega)
    have hvSlice := copySlice_eq hb (x := v) (hb.alloc_length ht) hle (by omega)
    have hpick : (Kv.pick (p.rows k) (p.rows v)) = fun kv => p.rows (Kv.pick k v kv) := by
      funext kv
      cases kv <;> rfl
    have hbefore : c.lenOf p.handle =
        some (if l = 0 then p.startPos else p.startPos + (p.rows k).length) := by
      rw [hlive p hp, hlen hk, Placed.lenBefore]
    obtain ⟨c₁, hok, hviews₁, hlen₁, hmoves₁⟩ := hviews.append hb hl
      ((hlen hv).trans (hlen hk).symm) hbefore (hrows p hp) (fun hzero => by
        rw [hlen hk]
        rw [hblocks, if_pos hzero] at hfree
        exact le_trans (Nat.le_add_right _ _) hfree)
    rw [hlen hk] at hlen₁ hmoves₁
    rw [hpick] at hviews₁
    have hne : ∀ p' ∈ rest, p'.handle ≠ p.handle := fun p' hp' heq =>
      hnotMem (heq ▸ List.mem_map_of_mem hp')
    have hready : ReadyFor c₁ (L.append p.handle l fun kv => p.rows (Kv.pick k v kv)) rest l := by
      refine ⟨hviews₁, hmoves₁.numLayers ▸ hl, hnodup', fun p' hp' => ?_, fun p' hp' kv => ?_, ?_⟩
      · rw [hmoves₁.others (by simpa using hne p' hp')]
        exact hlive p' (List.mem_cons_of_mem p hp')
      · rw [Logical.append_of_ne L _ (Or.inl (hne p' hp'))]
        exact hrows p' (List.mem_cons_of_mem p hp') kv
      · have := hmoves₁.free
        simp only [Placed.newBlocks] at hblocks
        omega
    obtain ⟨c', hok', hviews', hlive', hmoves'⟩ := ih hready htiles'
    refine ⟨c', ?_, Logical.appendLayer_cons L l hnotMem _ ▸ hviews', ?_, ?_⟩
    · exact lift_bind_eq_ok.2 ⟨t, ht, lift_bind_eq_ok.2 ⟨t, ht, lift_bind_eq_ok.2 ⟨_, hkSlice,
        lift_bind_eq_ok.2 ⟨_, hvSlice, unit_bind_eq_ok.2 ⟨c₁, hok, hok'⟩⟩⟩⟩⟩
    · intro p' hp'
      rcases List.mem_cons.1 hp' with rfl | hp'
      · rw [hmoves'.others hnotMem]
        exact hlen₁
      · exact hlive' p' hp'
    · have := hmoves₁.trans hmoves'
      rw [hblocks]
      exact this

/-! ## Layers -/

theorem length_qkv (hb : b.Sound) {cfg : ModelConfig} {w : LayerWeights W} {positions : List ℕ}
    {k v : List R} (hok : qkv b cfg w positions x = .ok (q, k, v)) :
    q.length = x.length ∧ k.length = x.length ∧ v.length = x.length := by
  obtain ⟨normed, hnormed, hok⟩ := except_bind_eq_ok.1 hok
  obtain ⟨q₀, hq, hok⟩ := except_bind_eq_ok.1 hok
  obtain ⟨k₀, hk, hok⟩ := except_bind_eq_ok.1 hok
  obtain ⟨v₀, hv, hok⟩ := except_bind_eq_ok.1 hok
  obtain ⟨⟨q₁, k₁⟩, hrope, hok⟩ := except_bind_eq_ok.1 hok
  cases hok
  have hn := hb.rmsnorm_length hnormed
  obtain ⟨hq₁, hk₁⟩ := hb.rope_length hrope
  rw [hb.view_length] at hq₁
  exact ⟨hq₁.trans ((hb.matmul_length hq).trans hn), hk₁.trans ((hb.matmul_length hk).trans hn),
    (hb.matmul_length hv).trans hn⟩

theorem length_finishLayer (hb : b.Sound) {cfg : ModelConfig} {w : LayerWeights W} {y : List R}
    (hok : finishLayer b cfg w x attnOut = .ok y) : y.length = x.length := by
  obtain ⟨projected, -, hok⟩ := except_bind_eq_ok.1 hok
  obtain ⟨x₁, hx₁, hok⟩ := except_bind_eq_ok.1 hok
  obtain ⟨normed, -, hok⟩ := except_bind_eq_ok.1 hok
  obtain ⟨gate, -, hok⟩ := except_bind_eq_ok.1 hok
  obtain ⟨up, -, hok⟩ := except_bind_eq_ok.1 hok
  obtain ⟨mid, -, hok⟩ := except_bind_eq_ok.1 hok
  obtain ⟨out, -, hok⟩ := except_bind_eq_ok.1 hok
  exact (hb.add_length hok).trans (hb.add_length hx₁)

/-- The hidden state and the buffer of a layer, and the cache it leaves,
against the hidden state and the keys and values of the logical layer. -/
structure LayerDone (c : PagedKvCacheManager R) (L : Logical R) (placed : List Placed) (l : ℕ)
    (r : (List R × List R) × PagedKvCacheManager R) (y : List R × (Kv → List R)) : Prop where
  hidden : r.1.1 = y.1
  length_hidden : r.1.1.length = r.1.2.length
  length_rows : ∀ kv, (y.2 kv).length = r.1.2.length
  cache : AppendedTo c L placed l y.2 r.2

/-- **One layer of a batch on the paged cache is one layer on the logical
cache**; it only reads the rows that were cached before. -/
theorem batchedLayer_related (hb : b.Reliable) (hc : ReadyFor c L placed l) {past : Logical R}
    (hpast : ∀ p ∈ placed, past p.handle l = L p.handle l) (htiles : Tiles 0 placed total)
    (cfg : ModelConfig) (w : LayerWeights W) (positions : List ℕ) (hx : x.length = total)
    (hout : attnOut.length = total) :
    Related Eq (fun r y => r.1.2.length = total ∧ LayerDone c L placed l r y)
      (outcome (batchedLayer b cfg w positions placed l x attnOut c))
      (runLayer b cfg past placed positions w l x) := by
  unfold batchedLayer runLayer
  rw [outcome_lift_bind]
  refine .bind_same (fun _ => rfl) ?_
  rintro ⟨q, k, v⟩ hqkv
  obtain ⟨hq, hk, hv⟩ := length_qkv hb.toSound hqkv
  obtain ⟨c', hok, hdone⟩ := appendSlices_ok hb hc htiles (hk.trans hx) (hv.trans hx)
  have hpicked : ∀ kv, (Kv.pick k v kv).length = total := by
    rintro ⟨⟩
    · exact hk.trans hx
    · exact hv.trans hx
  have hrows : ∀ p ∈ placed, L.appendLayer l placed (Kv.pick k v) p.handle l =
      fun kv => past p.handle l kv ++ p.rows (Kv.pick k v kv) := by
    intro p hp
    funext kv
    rw [Logical.appendLayer, if_pos rfl, freshRows_of_mem hc.nodup hp, hpast p hp]
  have hlen : ∀ p ∈ placed, ∀ kv,
      (past p.handle l kv ++ p.rows (Kv.pick k v kv)).length = p.startPos + p.count := by
    intro p hp kv
    rw [List.length_append, hpast p hp, hc.rows p hp kv, htiles.length_rows hp (hpicked kv)]
  have hattend := attendSlices_related hb hdone.toViews (hdone.moves.numLayers ▸ hc.layer) htiles
    hdone.live hrows hlen (hq.trans hx) cfg.numKvHeads hout
  rw [outcome_bind, hok]
  change Related Eq _ (outcome (((get : EStateM Fault (PagedKvCacheManager R) _) >>= _) c')) _
  rw [outcome_get_bind, outcome_lift_bind]
  unfold attendPlaced
  dsimp only
  rw [bind_assoc]
  refine hattend.bind ?_
  rintro attnOut' parts ⟨hout', hparts⟩
  rw [List.take_zero, List.nil_append] at hparts
  subst hparts
  rw [outcome_lift_bind]
  refine .bind_same (fun _ => rfl) fun y hy => ?_
  refine .ok ⟨hout', rfl, ?_, ?_, hdone⟩
  · rw [hout', length_finishLayer hb.toSound hy, hx]
  · rw [hout']
    exact hpicked

/-! ## Loops over the layers -/

section Loop

variable {σ S : Type}

/-- **A loop whose turns match the logical layers matches the logical
pass.** The invariant speaks about the loop's variables, the cache, and
the keys and values of the layers done so far. -/
theorem layerLoop_related (b : Backend R W F) (L : Logical R) (cfg : ModelConfig)
    (placed : List Placed) (positions : List ℕ) (layers : List (LayerWeights W)) (first : ℕ)
    (hidden : S → List R) (Inv : List (Kv → List R) → S → σ → Prop)
    (step : ℕ → S → EStateM Fault σ S) (loop : List ℕ → S → EStateM Fault σ (List R))
    (hnil : ∀ s, loop [] s = pure (hidden s))
    (hcons : ∀ i is s, loop (i :: is) s = step i s >>= loop is)
    (hstep : ∀ {done s c w}, Inv done s c → layers[done.length]? = some w →
      Related Eq (fun r y => hidden r.1 = y.1 ∧ Inv (done ++ [y.2]) r.1 r.2)
        (outcome (step (first + done.length) s c))
        (runLayer b cfg L placed positions w done.length (hidden s)))
    (done : List (Kv → List R)) {s : S} {c : σ} {ws : List (LayerWeights W)}
    (hws : layers.drop done.length = ws) (hinv : Inv done s c) :
    Related Eq (fun r y => r.1 = y.1 ∧ ∃ s', r.1 = hidden s' ∧ Inv (done ++ y.2) s' r.2)
      (outcome (loop (List.range' (first + done.length) ws.length) s c))
      (runLayers b cfg L placed positions ws done.length (hidden s)) := by
  induction ws generalizing done s c with
  | nil =>
    rw [List.length_nil, List.range'_zero, hnil]
    exact .ok ⟨rfl, s, rfl, by rwa [List.append_nil]⟩
  | cons w ws ih =>
    have hw : layers[done.length]? = some w := by
      rw [← List.head?_drop, hws, List.head?_cons]
    have hws' : layers.drop (done.length + 1) = ws := by
      rw [← List.tail_drop, hws, List.tail_cons]
    rw [List.length_cons, List.range'_succ, hcons, outcome_bind]
    refine (hstep hinv hw).bind ?_
    rintro ⟨s', c'⟩ ⟨x', rows⟩ ⟨rfl, hinv'⟩
    have hnext := ih (done ++ [rows]) (by rwa [List.length_append]) hinv'
    rw [List.length_append, List.length_singleton, ← Nat.add_assoc] at hnext
    refine hnext.map_right ?_
    rintro ⟨x₁, c₁⟩ ⟨y₁, more⟩ ⟨hx₁, s₁, hs₁, hinv₁⟩
    exact ⟨hx₁, s₁, hs₁, by rwa [List.append_assoc, List.singleton_append] at hinv₁⟩

end Loop

/-- A cache some layers into a batch: it shows the logical cache with
those layers committed, and the lengths moved on with the first. -/
structure MidBatch (c₀ : PagedKvCacheManager R) (L : Logical R) (placed : List Placed) (total : ℕ)
    (done : List (Kv → List R)) (c : PagedKvCacheManager R) : Prop
    extends c.Views (L.commit placed done) where
  lengths : ∀ rows ∈ done, ∀ kv, (rows kv).length = total
  live : ∀ p ∈ placed, c.lenOf p.handle = some (p.lenBefore done.length)
  moves : Moves (placed.map (·.handle)) (if done = [] then 0 else blocksOn 0 placed) c₀ c

namespace MidBatch

variable {c₀ : PagedKvCacheManager R} {placed : List Placed} {total : ℕ}
  {done : List (Kv → List R)}

theorem start (hc : c.Views L) (hlive : ∀ p ∈ placed, c.lenOf p.handle = some p.startPos) :
    MidBatch c L placed total [] c :=
  ⟨by rwa [Logical.commit_nil], by simp, hlive, Moves.refl _ c⟩

theorem ready (h : MidBatch c₀ L placed total done c) (hnodup : (placed.map (·.handle)).Nodup)
    (hrows : ∀ p ∈ placed, ∀ kv, (L p.handle done.length kv).length = p.startPos)
    (hfree : blocksOn 0 placed ≤ c₀.numFreeBlocks) (hl : done.length < c₀.pool.numLayers) :
    ReadyFor c (L.commit placed done) placed done.length := by
  refine ⟨h.toViews, h.moves.numLayers ▸ hl, hnodup, h.live, fun p hp kv => ?_, ?_⟩
  · rw [Logical.commit_of_le L placed le_rfl]
    exact hrows p hp kv
  · cases done with
    | nil =>
      have hmoved := h.moves.free
      rw [if_pos rfl, Nat.add_zero] at hmoved
      rw [hmoved]
      exact hfree
    | cons rows done =>
      rw [blocksOn, if_neg (by simp)]
      exact Nat.zero_le _

/-- One more layer. -/
theorem append (h : MidBatch c₀ L placed total done c) {rows : Kv → List R}
    (hlen : ∀ kv, (rows kv).length = total) {c' : PagedKvCacheManager R}
    (hc' : AppendedTo c (L.commit placed done) placed done.length rows c') :
    MidBatch c₀ L placed total (done ++ [rows]) c' := by
  refine ⟨Logical.commit_append L placed done rows ▸ hc'.toViews, ?_, fun p hp => ?_, ?_⟩
  · exact List.forall_mem_append.2 ⟨h.lengths, List.forall_mem_singleton.2 hlen⟩
  · rw [hc'.live p hp, Placed.lenBefore, if_neg (by simp)]
  · have hmoves := h.moves.trans_same hc'.moves
    rw [if_neg (by simp)]
    cases done with
    | nil => simpa using hmoves
    | cons rows₀ done => simpa [blocksOn] using hmoves

end MidBatch

/-- **The layer loop on the paged cache is the layer loop on the logical
cache.** -/
theorem batchedLayers_related (hb : b.Reliable) (htiles : Tiles 0 placed total)
    (hnodup : (placed.map (·.handle)).Nodup) (weights : WeightStore W)
    (hlayers : weights.layers.length ≤ c.pool.numLayers) (positions : List ℕ) (first : ℕ)
    (hc : c.Views L)
    (hrows : ∀ p ∈ placed, ∀ l < c.pool.numLayers, ∀ kv, (L p.handle l kv).length = p.startPos)
    (hlive : ∀ p ∈ placed, c.lenOf p.handle = some p.startPos)
    (hfree : blocksOn 0 placed ≤ c.numFreeBlocks) (hx : x.length = total)
    (hout : attnOut.length = total) :
    Related Eq (fun r y => r.1 = y.1 ∧ r.1.length = total ∧ MidBatch c L placed total y.2 r.2)
      (outcome (batchedLayers b weights positions placed first
        (List.range' first weights.layers.length) x attnOut c))
      (runLayers b weights.config L placed positions weights.layers 0 x) := by
  have hstart : (x, attnOut).1.length = total ∧ (x, attnOut).2.length = total ∧
      MidBatch c L placed total [] c := ⟨hx, hout, MidBatch.start hc hlive⟩
  have hloop := layerLoop_related b L weights.config placed positions weights.layers first
    (Prod.fst : List R × List R → List R)
    (fun done s c' => s.1.length = total ∧ s.2.length = total ∧ MidBatch c L placed total done c')
    (fun i s => do
      let w ← index weights.layers (i - first)
      batchedLayer b weights.config w positions placed (i - first) s.1 s.2)
    (fun is s => batchedLayers b weights positions placed first is s.1 s.2)
    (fun _ => rfl) (fun i is s => by simp only [batchedLayers, bind_assoc])
    (fun {done s c' w} ⟨hx', hout', hmid⟩ hw => ?_) [] rfl hstart
  · refine hloop.mono (fun _ _ h => h) ?_
    rintro r y ⟨heq, s', hs', hx', -, hmid⟩
    exact ⟨heq, hs' ▸ hx', hmid⟩
  · have hl : done.length < c.pool.numLayers := by
      have := (List.getElem?_eq_some_iff.1 hw).1
      omega
    rw [Nat.add_sub_cancel_left, outcome_lift_bind, index_eq_ok.2 hw, except_ok_bind]
    refine (batchedLayer_related hb (hmid.ready hnodup (fun p hp => hrows p hp _ hl) hfree hl)
      (fun p _ => (Logical.commit_of_le L placed le_rfl p.handle).symm) htiles weights.config w
      positions hx' hout').mono (fun _ _ h => h) ?_
    rintro r y ⟨htotal, hidden, hlenx, hlens, hdone⟩
    exact ⟨hidden, hlenx.trans htotal, htotal, hmid.append (fun kv => (hlens kv).trans htotal) hdone⟩

end Fracture
