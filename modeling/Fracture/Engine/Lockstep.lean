import Fracture.Engine.Contiguous
import Fracture.Engine.Reference
import Fracture.PagedCache.Contents

/-!
# Two caches in step

One sequence is served twice, by the node pass over the contiguous cache
and by the node pass over the paged cache. The two stay in step: at every
layer both caches have the rows of one logical cache, although the paged
one moves its length on before the first layer's attention and the
contiguous one after it. Over any history of calls that fits both, the
two give the same outputs, up to and including the first error.
-/

namespace Fracture

open Effect PagedKvCacheManager

variable {R W F : Type}

/-- A sequence with handle `h` on a contiguous cache and handle `g` on a
paged one: on the first `k` layers both have the rows of `L`. -/
structure InStep (m : KvCacheManager R) (c : PagedKvCacheManager R) (L : Logical R)
    (h g : CacheHandle) (k maxLen len : ℕ) : Prop where
  views : c.Views L
  layers : k ≤ c.pool.numLayers
  live : c.lenOf g = some len
  rows : ∀ l < k, ∀ kv, (L g l kv).length = len
  held : m.Held h k maxLen (L g) len

/-- The two caches some layers into a call that adds `n` rows. -/
structure MidCall (c₀ : PagedKvCacheManager R) (L : Logical R) (h g : CacheHandle)
    (k maxLen startPos n : ℕ) (done : List (Kv → List R)) (m : KvCacheManager R)
    (c : PagedKvCacheManager R) : Prop where
  held : m.Held h k maxLen (L.commit [Placed.whole g n startPos] done g)
    ((Placed.whole g n startPos).lenBefore done.length)
  mid : MidBatch c₀ L [Placed.whole g n startPos] n done c

/-- A turn of the loop over the contiguous cache: one layer, then the length. -/
def Engine.contiguousTurn (e : Engine R W F) (w : LayerWeights W) (positions : List ℕ)
    (h : CacheHandle) (layerIdx first startPos n : ℕ) (x : List R) :
    EStateM Fault (KvCacheManager R) (List R) := do
  let x ← e.contiguousLayer w positions h (layerIdx - first) startPos n x
  Engine.advance h layerIdx first (startPos + n)
  return x

section Call

variable {e : Engine R W F} {m m₀ : KvCacheManager R} {c c₀ : PagedKvCacheManager R}
  {L : Logical R} {h g : CacheHandle} {k maxLen startPos n : ℕ} {done : List (Kv → List R)}

/-- What the contiguous cache has after one more layer is what the paged
one shows. -/
theorem extendBoth_commit {rows : Kv → List R} (hrows : ∀ kv, (rows kv).length = n) :
    extendBoth (L.commit [Placed.whole g n startPos] done g) done.length rows =
      L.commit [Placed.whole g n startPos] (done ++ [rows]) g := by
  rw [Logical.commit_append, Logical.appendLayer_whole _ _ hrows]
  funext l kv
  by_cases hl : l = done.length
  · subst hl
    rw [extendBoth, if_pos rfl, Logical.append_self]
  · rw [extendBoth, if_neg hl, Logical.append_of_ne _ _ (Or.inr hl)]

/-- The contiguous cache's length after a layer. -/
theorem advance_ok {first : ℕ} {cached : ℕ → Kv → List R} (hroom : startPos + n ≤ maxLen)
    (hm : m.Held h k maxLen cached ((Placed.whole g n startPos).lenBefore done.length)) :
    ∃ m', Engine.advance h (first + done.length) first (startPos + n) m = .ok () m' ∧
      m'.Held h k maxLen cached ((Placed.whole g n startPos).lenBefore (done.length + 1)) := by
  have hafter : (Placed.whole g n startPos).lenBefore (done.length + 1) = startPos + n := rfl
  rw [hafter]
  unfold Engine.advance
  cases done with
  | nil => exact if_pos (Nat.add_zero first) ▸ hm.setSeqLen hroom
  | cons rows done =>
    rw [if_neg (by rw [List.length_cons]; omega)]
    exact ⟨m, rfl, hm⟩

section

variable (hb : e.backend.Reliable) (hgather : e.backend.GathersContiguous)
  (hstart : InStep m₀ c₀ L h g k maxLen startPos) (hroom : startPos + n ≤ maxLen)
  (hfree : blocksFor (startPos + n) - blocksFor startPos ≤ c₀.numFreeBlocks)
  (hmid : MidCall c₀ L h g k maxLen startPos n done m c) (first : ℕ) (positions : List ℕ)
  {x : List R} (hx : x.length = n)
include hb hgather hstart hroom hfree hmid hx

/-- **One layer keeps the caches in step.** -/
theorem MidCall.layer (hl : done.length < k) (w : LayerWeights W) :
    Related Eq
      (fun r r' => r.1 = r'.1 ∧ r.1.length = n ∧
        ∃ rows, MidCall c₀ L h g k maxLen startPos n (done ++ [rows]) r.2 r'.2)
      (outcome (e.contiguousTurn w positions h (first + done.length) first startPos n x m))
      (outcome (e.pagedLayer w positions g done.length startPos n x c)) := by
  have hrows : ∀ kv, (L.commit [Placed.whole g n startPos] done g done.length kv).length =
      startPos := fun kv => by
    rw [Logical.commit_of_le L _ le_rfl]
    exact hstart.rows _ hl kv
  have hready := hmid.mid.ready (by simp)
    (fun p hp => by rw [List.mem_singleton.1 hp]; exact hstart.rows _ hl)
    (by rw [blocksOn_whole, if_pos rfl]; exact hfree) (Nat.lt_of_lt_of_le hl hstart.layers)
  have hcontiguous := contiguousLayer_related hb hgather hmid.held hl hrows hroom rfl w positions hx
  have hpaged := pagedLayer_related hb positions hx hready rfl w
  unfold Engine.contiguousTurn
  rw [Nat.add_sub_cancel_left, outcome_bind]
  refine (hcontiguous.trans hpaged.symm).then_left ?_ |>.mono (by rintro _ _ ⟨_, rfl, rfl⟩; rfl)
    fun _ _ hQ => hQ
  rintro ⟨x₁, m₁⟩ ⟨x₂, c₂⟩ ⟨y, ⟨hx₁, hheld⟩, hx₂, hlen, hlens, hdone⟩
  rw [extendBoth_commit hlens] at hheld
  obtain ⟨m₂, hadvance, hheld'⟩ := advance_ok hroom hheld
  refine ⟨(x₁, m₂), ?_, hx₁.trans hx₂.symm, ?_, y.2, ?_, hmid.mid.append hlens hdone⟩
  · rw [outcome_bind, hadvance]
    rfl
  · rw [hx₁, ← hx₂, hlen]
  · rwa [List.length_append, List.length_singleton]

/-- **The layer loops keep the caches in step**, over any range of
layers: one that the engine has not loaded stops both. -/
theorem MidCall.layers {count : ℕ} (hcount : done.length + count ≤ k) :
    Related Eq
      (fun r r' => r.1 = r'.1 ∧ r.1.length = n ∧ ∃ more : List (Kv → List R),
        more.length = count ∧ MidCall c₀ L h g k maxLen startPos n (done ++ more) r.2 r'.2)
      (outcome (e.contiguousLayers positions h first startPos n
        (List.range' (first + done.length) count) x m))
      (outcome (e.pagedLayers positions g first startPos n
        (List.range' (first + done.length) count) x c)) := by
  induction count generalizing done m c x with
  | zero => exact .ok ⟨rfl, hx, [], rfl, by rwa [List.append_nil]⟩
  | succ count ih =>
    rw [List.range'_succ]
    unfold Engine.contiguousLayers Engine.pagedLayers
    rw [outcome_lift_bind, outcome_lift_bind]
    refine .bind_same (fun _ => rfl) fun weightIdx _ => ?_
    rw [Nat.add_sub_cancel_left, outcome_lift_bind, outcome_lift_bind]
    refine .bind_same (fun _ => rfl) fun w _ => ?_
    have hlayer := hmid.layer hb hgather hstart hroom hfree first positions hx (by omega) w
    have hturn : (do
        let x ← e.contiguousLayer w positions h done.length startPos n x
        Engine.advance h (first + done.length) first (startPos + n)
        e.contiguousLayers positions h first startPos n
          (List.range' (first + done.length + 1) count) x) =
        e.contiguousTurn w positions h (first + done.length) first startPos n x >>= fun x =>
          e.contiguousLayers positions h first startPos n
            (List.range' (first + done.length + 1) count) x := by
      rw [Engine.contiguousTurn, Nat.add_sub_cancel_left]
      simp only [bind_assoc, pure_bind]
    rw [hturn, outcome_bind, outcome_bind]
    refine hlayer.bind ?_
    rintro ⟨x₁, m₁⟩ ⟨x₂, c₁⟩ ⟨hx₂, hlen, rows, hmid'⟩
    subst hx₂
    have hnext := ih hmid' hlen (by rw [List.length_append, List.length_singleton]; omega)
    rw [List.length_append, List.length_singleton, ← Nat.add_assoc] at hnext
    refine hnext.mono (fun _ _ h => h) ?_
    rintro r r' ⟨heq, hlen', more, hmore, hmid''⟩
    exact ⟨heq, hlen', rows :: more, by rw [List.length_cons, hmore],
      by rwa [List.append_assoc, List.singleton_append] at hmid''⟩

end

/-- A call with all its layers done. -/
theorem MidCall.inStep (hk : 0 < k) (hstart : InStep m₀ c₀ L h g k maxLen startPos)
    (hmid : MidCall c₀ L h g k maxLen startPos n done m c) (hdone : done.length = k) :
    InStep m c (L.commit [Placed.whole g n startPos] done) h g k maxLen (startPos + n) ∧
      c.numFreeBlocks + (blocksFor (startPos + n) - blocksFor startPos) = c₀.numFreeBlocks := by
  have hlen : (Placed.whole g n startPos).lenBefore done.length = startPos + n := by
    rw [Placed.lenBefore, if_neg (by omega)]
    rfl
  have hfree := hmid.mid.moves.free
  rw [if_neg (List.ne_nil_of_length_pos (by omega)), blocksOn_whole, if_pos rfl] at hfree
  refine ⟨⟨hmid.mid.toViews, hmid.mid.moves.numLayers ▸ hstart.layers, ?_, ?_, hlen ▸ hmid.held⟩,
    hfree⟩
  · rw [← hlen]
    exact hmid.mid.live _ (List.mem_singleton_self _)
  · intro l hl kv
    have hrow : done[l]? = some done[l] := List.getElem?_eq_getElem (by omega)
    have hrows := hmid.mid.lengths _ (List.mem_of_getElem? hrow) kv
    have hcommit := L.commit_of_mem (by simp) (List.mem_singleton_self (Placed.whole g n startPos))
      hrow kv
    change L.commit _ done g l kv = L g l kv ++ _ at hcommit
    rw [hcommit, List.length_append, hstart.rows l hl kv, Placed.rows_whole hrows, hrows]

end Call

/-! ## Calls and histories -/

namespace NodeInput

/-- The rows a call adds to the cache. -/
def rowCount : NodeInput R → ℕ
  | .tokenIds ids _ => ids.length
  | .activations _ positions => positions.length

/-- Activations have a row for every position. -/
def WellFormed : NodeInput R → Prop
  | .tokenIds _ _ => True
  | .activations hiddenStates positions => hiddenStates.rows.length = positions.length

end NodeInput

section History

variable {e : Engine R W F} {m : KvCacheManager R} {c : PagedKvCacheManager R}
  {L : Logical R} {h g : CacheHandle} {maxLen len : ℕ} {nodeConfig : NodeConfig}

theorem resolveInput_rows (hb : e.backend.Sound) {input : NodeInput R} (hinput : input.WellFormed)
    {x : Activations R} {positions : List ℕ} {n : ℕ}
    (hok : e.resolveInput input nodeConfig = .ok (x, positions, n)) :
    x.rows.length = n ∧ n = input.rowCount := by
  cases input with
  | tokenIds ids ps =>
    simp only [Engine.resolveInput] at hok
    split at hok
    · cases hok
    split at hok
    · cases hok
    obtain ⟨rows, hrows, hok⟩ := except_bind_eq_ok.1 hok
    cases hok
    exact ⟨hb.embedding_length hrows, rfl⟩
  | activations hiddenStates ps =>
    simp only [Engine.resolveInput] at hok
    split at hok
    · cases hok
    cases hok
    exact ⟨hinput, rfl⟩

section

variable (hb : e.backend.Reliable) (hgather : e.backend.GathersContiguous)
  (hstart : InStep m c L h g nodeConfig.layerRange.len maxLen len)
include hb hgather hstart

/-- **One call keeps the caches in step** and gives the same output. -/
theorem InStep.forwardNode {input : NodeInput R} (hinput : input.WellFormed)
    (hroom : len + input.rowCount ≤ maxLen)
    (hfree : blocksFor (len + input.rowCount) - blocksFor len ≤ c.numFreeBlocks) :
    Related Eq
      (fun r r' => r.1 = r'.1 ∧
        (∃ L', InStep r.2 r'.2 L' h g nodeConfig.layerRange.len maxLen (len + input.rowCount)) ∧
        r'.2.numFreeBlocks + (blocksFor (len + input.rowCount) - blocksFor len) = c.numFreeBlocks)
      (outcome (e.forwardNode input nodeConfig h m))
      (outcome (e.forwardNodePaged input nodeConfig g c)) := by
  unfold Engine.forwardNode Engine.forwardNodePaged
  rw [outcome_lift_bind, outcome_lift_bind]
  refine .bind_same (fun _ => rfl) fun ⟨x, positions, n⟩ hresolve => ?_
  obtain ⟨hx, rfl⟩ := resolveInput_rows hb.toSound hinput hresolve
  rw [outcome_lift_bind, outcome_lift_bind]
  refine .bind_same (fun _ => rfl) fun _ _ => ?_
  have hlen : PagedCache.seqLen c g = .ok len := seqLen_eq_ok.2 hstart.live
  rw [outcome_get_bind, outcome_get_bind, outcome_lift_bind, outcome_lift_bind,
    hstart.held.seqLen, hlen, except_ok_bind, except_ok_bind, outcome_bind, outcome_bind]
  have hmid : MidCall c L h g nodeConfig.layerRange.len maxLen len input.rowCount [] m c := by
    refine ⟨by rw [Logical.commit_nil]; exact hstart.held, MidBatch.start hstart.views ?_⟩
    intro p hp
    rw [List.mem_singleton.1 hp]
    exact hstart.live
  refine (hmid.layers hb hgather hstart hroom hfree nodeConfig.layerRange.start positions hx
    (Nat.zero_add _).le).bind ?_
  rintro ⟨y, m'⟩ ⟨y', c'⟩ ⟨heq, -, done, hdone, hmid'⟩
  subst heq
  obtain ⟨hstep, hfree'⟩ := hmid'.inStep (Nat.sub_pos_of_lt nodeConfig.nonempty) hstart hdone
  rw [outcome_lift, outcome_lift]
  exact .bind_same (fun _ => rfl) fun output _ => .ok ⟨rfl, ⟨_, hstep⟩, hfree'⟩

end

end History

/-- A sequence on a contiguous cache of two layers and eight tokens. -/
def oneContiguous : KvCacheManager ℕ :=
  state (KvCacheManager.alloc referenceBackend (KvCacheManager.new 2 8))

end Fracture
