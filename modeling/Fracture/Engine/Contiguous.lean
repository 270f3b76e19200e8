import Fracture.Engine.Single

/-!
# The contiguous cache is the logical one

A sequence on the contiguous cache has one tensor per layer for its keys
and one for its values, of the greatest length from the start; the rows
cached so far are the first rows of each. A layer of the forward pass
lays its keys and values behind them, and where paged attention over a
table is attention over the rows it gathers, the layer computes what it
does on the logical cache.
-/

namespace Fracture

open Effect Rows

variable {R W F : Type}

/-- Paged attention through a block table is contiguous attention over
the rows it gathers. The contiguous kernel looks at the rows up to the
last query's own. -/
def Backend.GathersContiguous (b : Backend R W F) : Prop :=
  ∀ {q : List R} {table : List ℕ} {keyBlocks valueBlocks : ℕ → List R} {keys values : List R}
    {numKvHeads pos : ℕ},
    (∀ t < pos + q.length, ∃ x, Paging.read blockSize table keyBlocks t = some x ∧
      keys[t]? = some x) →
    (∀ t < pos + q.length, ∃ x, Paging.read blockSize table valueBlocks t = some x ∧
      values[t]? = some x) →
    b.attentionPaged q table keyBlocks valueBlocks numKvHeads (pos + q.length) pos =
      b.attention q keys values numKvHeads pos

/-- Contiguous attention over tensors that start with the rows. -/
theorem attention_eq_attendRows {b : Backend R W F} (hb : b.Sound) (hgather : b.GathersContiguous)
    {rows caches : Kv → List R} (hpre : ∀ kv, rows kv <+: caches kv) {q : List R} {pos : ℕ}
    (hlen : ∀ kv, (rows kv).length = pos + q.length) (numKvHeads : ℕ) :
    b.attention q (caches .k) (caches .v) numKvHeads pos = attendRows b numKvHeads q rows := by
  have hholds : ∀ kv, Paging.Holds blockSize (List.range (pos + q.length))
      (Paging.chunk blockSize (rows kv)) (rows kv) := fun kv => by
    rw [← hlen kv]
    exact Paging.Holds.chunk (by decide) _
  have hread : ∀ kv, ∀ t < pos + q.length, ∃ x, Paging.read blockSize
      (List.range (pos + q.length)) (Paging.chunk blockSize (rows kv)) t = some x ∧
      (caches kv)[t]? = some x := by
    intro kv t ht
    rw [← hlen kv] at ht
    obtain ⟨more, hmore⟩ := hpre kv
    refine ⟨(rows kv)[t], (hholds kv).read ht, ?_⟩
    rw [← hmore, List.getElem?_append_left ht, List.getElem?_eq_getElem ht]
  rw [← attentionPaged_eq_attendRows hb hholds (by rw [hlen .v, hlen .k]) (hlen .k).symm]
  exact (hgather (hread .k) (hread .v)).symm

namespace KvCacheManager

/-- A sequence of the contiguous cache of which `cached` are the rows of
the first `k` layers and `len` the length. -/
structure Held (m : KvCacheManager R) (h : CacheHandle) (k maxLen : ℕ) (cached : ℕ → Kv → List R)
    (len : ℕ) : Prop where
  entry : ∃ seq, m.caches.lookup h = some seq ∧ seq.currentLen = len ∧ seq.maxLen = maxLen ∧
    ∀ l < k, ∃ rows, seq.layers[l]? = some rows ∧
      ∀ kv, (rows kv).length = maxLen ∧ cached l kv <+: rows kv

/-- Rows appended to the keys or the values of one layer. -/
def extend (cached : ℕ → Kv → List R) (l : ℕ) (kv : Kv) (rows : List R) : ℕ → Kv → List R :=
  fun l' kv' => if l' = l ∧ kv' = kv then cached l kv ++ rows else cached l' kv'

namespace Held

variable {m : KvCacheManager R} {h : CacheHandle} {k maxLen len l : ℕ} {cached : ℕ → Kv → List R}
  (hm : m.Held h k maxLen cached len)
include hm

theorem seqLen : m.seqLen h = .ok len := by
  obtain ⟨seq, hseq, rfl, -⟩ := hm.entry
  rw [KvCacheManager.seqLen, find, hseq]
  rfl

theorem tensor (hl : l < k) (kv : Kv) :
    ∃ rows, m.tensor kv h l = .ok rows ∧ rows.length = maxLen ∧ cached l kv <+: rows := by
  obtain ⟨seq, hseq, -, -, hlayers⟩ := hm.entry
  obtain ⟨rows, hrows, hheld⟩ := hlayers l hl
  refine ⟨rows kv, ?_, hheld kv⟩
  rw [KvCacheManager.tensor, find, hseq, except_ok_bind, hrows]
  rfl

/-- Writing a tensor of a layer. -/
theorem setTensor {kv : Kv} {new tensor : List R} (hlen : tensor.length = maxLen)
    (hpre : cached l kv ++ new <+: tensor) :
    (m.setTensor kv h l tensor).Held h k maxLen (extend cached l kv new) len := by
  obtain ⟨seq, hseq, hcur, hmax, hlayers⟩ := hm.entry
  have hset : (m.setTensor kv h l tensor).caches.lookup h =
      some { seq with layers := seq.layers.modify l fun old => Function.update old kv tensor } := by
    rw [KvCacheManager.setTensor, hseq]
    exact AList.lookup_insert m.caches
  refine ⟨_, hset, hcur, hmax, fun l' hl' => ?_⟩
  obtain ⟨rows, hrows, hheld⟩ := hlayers l' hl'
  by_cases hll : l' = l
  · subst hll
    refine ⟨Function.update rows kv tensor, by rw [List.getElem?_modify_eq, hrows]; rfl,
      fun kv' => ?_⟩
    unfold extend
    by_cases hkv : kv' = kv
    · subst hkv
      simpa using ⟨hlen, hpre⟩
    · simpa [hkv] using hheld kv'
  · refine ⟨rows, by rw [List.getElem?_modify_ne _ _ (Ne.symm hll), hrows], fun kv' => ?_⟩
    rw [extend, if_neg (fun hand => hll hand.1)]
    exact hheld kv'

/-- Copying rows behind those of a layer that has room for them. -/
theorem copyInto {b : Backend R W F} (hb : b.Reliable) (hl : l < k) {kv : Kv} {src : List R}
    (hroom : (cached l kv).length + src.length ≤ maxLen) :
    ∃ m', KvCacheManager.copyInto b kv src h l (cached l kv).length src.length m = .ok () m' ∧
      m'.Held h k maxLen (extend cached l kv src) len := by
  obtain ⟨dst, hdst, hlen, hpre⟩ := hm.tensor hl kv
  have hcopy : b.copyRows src dst 0 (cached l kv).length src.length =
      .ok (overwrite dst (cached l kv).length src) := by
    rw [hb.copyRows_eq_ok (by omega) (by omega), window_zero_length]
  refine ⟨m.setTensor kv h l (overwrite dst (cached l kv).length src), ?_, hm.setTensor ?_ ?_⟩
  · rw [KvCacheManager.copyInto, hdst, except_ok_bind, hcopy]
  · rw [length_overwrite (by omega), hlen]
  · exact prefix_overwrite hpre

theorem setSeqLen {newLen : ℕ} (hle : newLen ≤ maxLen) :
    ∃ m', KvCacheManager.setSeqLen h newLen m = .ok () m' ∧ m'.Held h k maxLen cached newLen := by
  obtain ⟨seq, hseq, -, hmax, hlayers⟩ := hm.entry
  refine ⟨{ m with caches := m.caches.insert h { seq with currentLen := newLen } }, ?_,
    ⟨_, AList.lookup_insert m.caches, rfl, hmax, hlayers⟩⟩
  rw [KvCacheManager.setSeqLen, find, hseq]
  exact if_neg (by omega)

end Held

end KvCacheManager

/-! ## One layer -/

section Layer

variable {e : Engine R W F} {m : KvCacheManager R} {h g : CacheHandle}
  {k maxLen len l n startPos : ℕ} {cached : ℕ → Kv → List R}

/-- Keys and values laid behind the rows of a layer. -/
def extendBoth (cached : ℕ → Kv → List R) (l : ℕ) (rows : Kv → List R) : ℕ → Kv → List R :=
  fun l' kv => if l' = l then cached l' kv ++ rows kv else cached l' kv

theorem extend_extend (cached : ℕ → Kv → List R) (l : ℕ) (keys values : List R) :
    KvCacheManager.extend (KvCacheManager.extend cached l .k keys) l .v values =
      extendBoth cached l (Kv.pick keys values) := by
  funext l' kv
  by_cases hl : l' = l
  · subst hl
    cases kv <;> simp [KvCacheManager.extend, extendBoth, Kv.pick]
  · simp [KvCacheManager.extend, extendBoth, hl]

/-- **One layer of a sequence on the contiguous cache is one layer on the
logical cache.** -/
theorem contiguousLayer_related (hb : e.backend.Reliable) (hgather : e.backend.GathersContiguous)
    (hm : m.Held h k maxLen cached len) (hl : l < k)
    (hlen : ∀ kv, (cached l kv).length = startPos) (hroom : startPos + n ≤ maxLen)
    {past : Logical R} (hpast : past g l = cached l) (w : LayerWeights W) (positions : List ℕ)
    {x : List R} (hx : x.length = n) :
    Related Eq (fun r y => r.1 = y.1 ∧ r.2.Held h k maxLen (extendBoth cached l y.2) len)
      (outcome (e.contiguousLayer w positions h l startPos n x m))
      (runLayer e.backend e.config past [Placed.whole g n startPos] positions w l x) := by
  rw [runLayer_whole hb.toSound e.config past positions w l hx]
  unfold Engine.contiguousLayer
  rw [outcome_lift_bind]
  refine .bind_same (fun _ => rfl) fun ⟨q, ks, vs⟩ hqkv => ?_
  obtain ⟨hq, hk, hv⟩ := length_qkv hb.toSound hqkv
  rw [hx] at hq hk hv
  obtain ⟨kOld, hkOld, -⟩ := hm.tensor hl .k
  obtain ⟨vOld, hvOld, -⟩ := hm.tensor hl .v
  have hroomK : (cached l .k).length + ks.length ≤ maxLen := by rwa [hlen, hk]
  obtain ⟨m₁, hcopyK, hm₁⟩ := hm.copyInto hb hl hroomK
  have hlenV : (KvCacheManager.extend cached l .k ks l .v).length = startPos := by
    simp [KvCacheManager.extend, hlen]
  have hroomV : (KvCacheManager.extend cached l .k ks l .v).length + vs.length ≤ maxLen := by
    rwa [hlenV, hv]
  obtain ⟨m₂, hcopyV, hm₂⟩ := hm₁.copyInto hb hl hroomV
  rw [hlen, hk] at hcopyK
  rw [hlenV, hv] at hcopyV
  rw [extend_extend] at hm₂
  obtain ⟨kCache, hkCache, -, hkPre⟩ := hm₂.tensor hl .k
  obtain ⟨vCache, hvCache, -, hvPre⟩ := hm₂.tensor hl .v
  rw [extendBoth, if_pos rfl, ← hpast] at hkPre hvPre
  have hpre : ∀ kv, past g l kv ++ Kv.pick ks vs kv <+: Kv.pick kCache vCache kv := by
    rintro ⟨⟩
    · exact hkPre
    · exact hvPre
  have hrows : ∀ kv, (past g l kv ++ Kv.pick ks vs kv).length = startPos + q.length := by
    intro kv
    rw [List.length_append, hpast, hlen, hq]
    cases kv
    · exact congrArg _ hk
    · exact congrArg _ hv
  have hattn := attention_eq_attendRows hb.toSound hgather hpre hrows e.config.numKvHeads
  rw [outcome_get_bind, outcome_lift_bind, hkOld, except_ok_bind, outcome_get_bind,
    outcome_lift_bind, hvOld, except_ok_bind, outcome_bind, hcopyK]
  change Related Eq _ (outcome ((KvCacheManager.copyInto e.backend .v vs h l startPos n >>= _) m₁)) _
  rw [outcome_bind, hcopyV]
  change Related Eq _ (outcome (((get : EStateM Fault (KvCacheManager R) _) >>= _) m₂)) _
  rw [outcome_get_bind, outcome_lift_bind, hkCache, except_ok_bind, outcome_get_bind,
    outcome_lift_bind, hvCache, except_ok_bind, outcome_lift_bind]
  change Related Eq _ (e.backend.attention q (Kv.pick kCache vCache .k) (Kv.pick kCache vCache .v)
    e.config.numKvHeads startPos >>= _) _
  rw [hattn]
  refine .bind_same (fun _ => rfl) fun attnOut _ => ?_
  rw [outcome_lift]
  exact .bind_same (fun _ => rfl) fun y _ => .ok ⟨rfl, hm₂⟩

end Layer

end Fracture
