import Fracture.PagedCache.Conservation

/-!
# What a sequence's cache stores

`Stores c h l rows` says that the cache, read through the block table of
`h`, holds `rows` on layer `l`: token `t` is in block `table[t / 16]` at
offset `t % 16`, which is the address the paged attention kernel
computes. An append, however it ends, leaves alone what every other
sequence stores, and what the same sequence stores on other layers
(`stores_of_appended`); tables may get longer, and blocks do not move.
One that succeeds stores its rows behind those that were there
(`stores_appendKv`).

A table that `Fits` has exactly the blocks its tokens need.
-/

namespace Fracture

open Effect BlockPool

variable {R W F : Type} {fresh : ℕ → ℕ → Except FractureError (List R × List R)}
  {numBlocks numLayers numKvHeads headDim : ℕ}

/-! ## Tables of the right length -/

namespace SequenceBlocks

/-- The table has the blocks its tokens need: all but the last are full,
and the last is empty only for an empty sequence. -/
structure Fits (seq : SequenceBlocks) : Prop where
  pos : 0 < seq.blockTable.length
  fill_le : seq.lastBlockFill ≤ blockSize
  len : seq.currentLen + blockSize = blockSize * seq.blockTable.length + seq.lastBlockFill
  empty : seq.lastBlockFill = 0 → seq.currentLen = 0

namespace Fits

variable {seq : SequenceBlocks}

/-- A sequence has one block, or as many as hold its tokens. -/
theorem length_eq (h : seq.Fits) :
    seq.blockTable.length = max 1 ((seq.currentLen + (blockSize - 1)) / blockSize) := by
  obtain ⟨hpos, hfill, hlen, hempty⟩ := h
  simp only [blockSize] at *
  omega

theorem room (h : seq.Fits) : seq.currentLen ≤ blockSize * seq.blockTable.length := by
  have hlen := h.len
  have hfill := h.fill_le
  omega

/-- Growing by the blocks the new tokens need keeps a table fitting. -/
theorem grow (h : seq.Fits) {new : List ℕ} {numNew : ℕ}
    (hnew : new.length = extraBlocks seq.lastBlockFill numNew) : (seq.grow new numNew).Fits := by
  obtain ⟨hpos, hfill, hlen, hempty⟩ := h
  by_cases hzero : numNew = 0
  · subst hzero
    rw [extraBlocks_zero, List.length_eq_zero_iff] at hnew
    subst hnew
    refine ⟨?_, ?_, ?_, ?_⟩ <;> simp_all [SequenceBlocks.grow, fillAfter]
  · have hfillAfter : fillAfter seq.lastBlockFill numNew =
        (seq.lastBlockFill + numNew - 1) % blockSize + 1 := by rw [fillAfter, if_neg hzero]
    refine ⟨?_, ?_, ?_, ?_⟩ <;>
      simp only [SequenceBlocks.grow, List.length_append, hnew, hfillAfter, extraBlocks,
        blockSize] at * <;> omega

end Fits

end SequenceBlocks

namespace PagedKvCacheManager

variable {c c' : PagedKvCacheManager R} {h g : CacheHandle} {l layer : ℕ} {seq gseq : SequenceBlocks}

/-- Through the table of `h`, layer `l` of the cache holds `rows`. -/
def Stores (c : PagedKvCacheManager R) (h : CacheHandle) (l : ℕ) (rows : Kv → List R) : Prop :=
  ∃ seq, c.sequences.lookup h = some seq ∧
    ∀ kv, Paging.Holds blockSize seq.blockTable (c.pool.layer kv l) (rows kv)

/-- What a sequence stores depends on its entry and the blocks only. -/
theorem Stores.congr {rows : Kv → List R} (hs : c.Stores h l rows)
    (hlook : c'.sequences.lookup h = c.sequences.lookup h)
    (hpool : c'.pool.blocks = c.pool.blocks) : c'.Stores h l rows := by
  obtain ⟨seq, hseq, hrows⟩ := hs
  refine ⟨seq, hlook.trans hseq, fun kv => ?_⟩
  unfold BlockPool.layer
  rw [hpool]
  exact hrows kv

/-- A sequence with one block and no token. -/
theorem fits_first (b : ℕ) : SequenceBlocks.Fits ⟨[b], 0, 0⟩ :=
  ⟨by simp, by simp, by simp, fun _ => rfl⟩

/-- A new pool's blocks have a block's rows when the backend allocates them so. -/
theorem shaped_new (hfresh : ∀ {blockId l keys values}, fresh blockId l = .ok (keys, values) →
      keys.length = blockSize ∧ values.length = blockSize)
    (hnew : new fresh numBlocks numLayers numKvHeads headDim = .ok c) : c.pool.Shaped := by
  obtain ⟨pool, hpool, hc⟩ := except_bind_eq_ok.1 hnew
  obtain ⟨⟨⟩, hloop, hpool⟩ := except_bind_eq_ok.1 hpool
  cases hpool
  cases hc
  intro kv blockId hblock l hl
  have hturn := except_forM_eq_ok (except_forM_eq_ok hloop blockId (List.mem_range.2 hblock)) l
    (List.mem_range.2 hl)
  cases hf : fresh blockId l with
  | ok pair =>
    dsimp only
    rw [hf]
    cases kv
    · exact (hfresh hf).1
    · exact (hfresh hf).2
  | error e =>
    rw [hf] at hturn
    cases hturn

/-! ## Blocks of different sequences -/

theorem Accounted.nodup (hc : c.Accounted) : (c.pool.freeList ++ c.blocksInUse).Nodup :=
  hc.perm.nodup_iff.2 List.nodup_range

section

variable (hc : c.Accounted) (hseq : c.sequences.lookup h = some seq)
include hc hseq

/-- A live sequence's table names blocks of the pool, none twice. -/
theorem Accounted.owns :
    c.pool.Owns seq.blockTable := by
  have hused := (List.nodup_append.1 hc.nodup).2.1
  refine ⟨?_, ?_⟩
  · exact (List.nodup_append.1 ((Assoc.collect_perm hseq).nodup_iff.1 hused)).1
  · intro b hb
    have hmem : b ∈ c.pool.freeList ++ c.blocksInUse :=
      List.mem_append_right _ (Assoc.mem_collect.2 ⟨h, seq, hseq, hb⟩)
    exact List.mem_range.1 (hc.perm.mem_iff.1 hmem)

/-- Two live sequences share no block, and neither has a free one. -/
theorem Accounted.notMem_table (hg : c.sequences.lookup g = some gseq) (hne : g ≠ h) {b : ℕ}
    (hb : b ∈ gseq.blockTable) (n : ℕ) : b ∉ seq.blockTable ++ c.pool.freeList.take n := by
  have hnd := List.nodup_append.1 hc.nodup
  rw [List.mem_append, not_or]
  refine ⟨Assoc.notMem_of_ne hnd.2.1 hg hseq hne.symm hb, ?_⟩
  intro hfree
  exact hnd.2.2 b (List.mem_of_mem_take hfree) b (Assoc.mem_collect.2 ⟨g, gseq, hg, hb⟩) rfl

/-- A table grown by free blocks still names no block twice. -/
theorem Accounted.owns_grown (n : ℕ) :
    c.pool.Owns (seq.blockTable ++ c.pool.freeList.take n) := by
  have hnd := List.nodup_append.1 hc.nodup
  have howns := hc.owns hseq
  refine ⟨?_, ?_⟩
  · refine List.nodup_append.2 ⟨howns.1, (List.take_sublist _ _).nodup hnd.1, ?_⟩
    intro b hb b' hb' hbb
    subst hbb
    exact hnd.2.2 b (List.mem_of_mem_take hb') b (Assoc.mem_collect.2 ⟨h, seq, hseq, hb⟩) rfl
  · intro b hb
    rcases List.mem_append.1 hb with hb | hb
    · exact howns.2 b hb
    · exact List.mem_range.1 (hc.perm.mem_iff.1
        (List.mem_append_left _ (List.mem_of_mem_take hb)))

end

/-! ## Every outcome of an append -/

variable {numNew : ℕ}

section

variable (hstep : Appended h layer numNew c c')
include hstep

/-- An append leaves the entries of the other sequences. -/
theorem lookup_of_appended (hne : g ≠ h) : c'.sequences.lookup g = c.sequences.lookup g := by
  cases hstep with
  | invalid => rfl
  | written => rfl
  | exhausted => exact AList.lookup_insert_ne hne
  | grown => exact AList.lookup_insert_ne hne

theorem nextId_of_appended : c'.nextId = c.nextId := by
  cases hstep <;> rfl

/-- **An append leaves alone what the other sequences store, and what
this sequence stores on other layers**, however it ends. -/
theorem stores_of_appended (hc : c.Accounted) {rows : Kv → List R} (hother : g ≠ h ∨ l ≠ layer)
    (hg : c.Stores g l rows) : c'.Stores g l rows := by
  obtain ⟨gseq, hgseq, hrows⟩ := hg
  cases hstep with
  | invalid => exact ⟨gseq, hgseq, hrows⟩
  | @written seq pool hseq _ hw =>
    refine ⟨gseq, hgseq, fun kv => (hrows kv).congr fun b hb => hw.frame kv b l ?_⟩
    refine hother.imp_left fun hne => ?_
    have hfree := hc.notMem_table hseq hgseq hne hb 0
    exact fun hmem => hfree (List.mem_append_left _ hmem)
  | @exhausted seq hseq _ _ =>
    by_cases hgh : g = h
    · subst hgh
      cases hgseq.symm.trans hseq
      exact ⟨_, AList.lookup_insert _, fun kv => (hrows kv).append_table _⟩
    · exact ⟨gseq, (AList.lookup_insert_ne hgh).trans hgseq, hrows⟩
  | @grown seq pool hseq hl _ hw =>
    by_cases hgh : g = h
    · subst hgh
      cases hgseq.symm.trans hseq
      have hne : l ≠ 0 := hl ▸ hother.resolve_left (fun hne => hne rfl)
      refine ⟨_, AList.lookup_insert _, fun kv => ?_⟩
      exact ((hrows kv).append_table _).congr fun b _ => hw.frame kv b l (Or.inr hne)
    · refine ⟨gseq, (AList.lookup_insert_ne hgh).trans hgseq, fun kv => ?_⟩
      exact (hrows kv).congr fun b hb =>
        hw.frame kv b l (Or.inl (hc.notMem_table hseq hgseq hgh hb _))

/-- An append keeps every table fitting, unless it ran out of blocks with
some still on the stack. -/
theorem fits_of_appended (hfits : ∀ {g gseq}, c.sequences.lookup g = some gseq → gseq.Fits)
    (hdry : ∀ seq, layer = 0 → c.sequences.lookup h = some seq → c.pool.freeList.length <
      extraBlocks seq.lastBlockFill numNew → c.pool.freeList = [])
    (hg : c'.sequences.lookup g = some gseq) : gseq.Fits := by
  by_cases hgh : g = h
  · subst hgh
    cases hstep with
    | invalid => exact hfits hg
    | written => exact hfits hg
    | @exhausted seq hseq hl hshort =>
      cases (AList.lookup_insert _).symm.trans hg
      rw [hdry seq hl hseq hshort, List.append_nil]
      exact hfits hseq
    | @grown seq pool hseq hl henough hw =>
      cases (AList.lookup_insert _).symm.trans hg
      exact (hfits hseq).grow (by rw [List.length_take]; omega)
  · exact hfits ((lookup_of_appended hstep hgh).symm.trans hg)

end

section

variable {b : Backend R W F} (hb : b.Sound) (hs : c.pool.Shaped) (layer : ℕ) (keys values : List R)
include hb hs

/-- On a sound backend the write part of an append keeps the size of every
block. -/
theorem shaped_writeNew (seq : SequenceBlocks) :
    (state (writeNew b layer keys values seq c)).pool.Shaped := by
  unfold writeNew
  cases checkedSub seq.currentLen keys.length with
  | ok startToken =>
    rw [lift_bind_of_ok rfl, state_onPool]
    exact (writeRows_sameLengths hb layer startToken _ keys values _ 0 c.pool).shaped hs
  | error e =>
    rw [lift_bind_of_error rfl]
    exact hs

theorem shaped_appendKv (hc : c.Accounted) (h : CacheHandle) :
    (state (appendKv b h layer keys values c)).pool.Shaped := by
  cases hseq : c.sequences.lookup h with
  | none =>
    rw [appendKv_of_notLive hseq]
    exact hs
  | some seq =>
    by_cases hl : layer = 0
    · subst hl
      rcases Nat.lt_or_ge c.pool.freeList.length (extraBlocks seq.lastBlockFill keys.length) with
        hshort | henough
      · rw [appendKv_drained (hc.fill hseq) hseq b values hshort]
        exact hs
      · rw [appendKv_grown (hc.fill hseq) hseq b values henough]
        exact shaped_writeNew (c := c.grown h seq keys.length) hb hs 0 keys values _
    · rw [appendKv_of_ne_zero hseq b hl]
      exact shaped_writeNew hb hs layer keys values seq

end

/-! ## An append that succeeds -/

section Success

variable {b : Backend R W F} {keys values : List R}

section

variable (hs : c.pool.Shaped) (hl : layer < c.pool.numLayers) (howns : c.pool.Owns seq.blockTable)
  (hlen : values.length = keys.length)
include hs hl howns hlen

/-- The write part, when it succeeds, has put the rows behind the old ones. -/
theorem writeNew_of_ok (hb : b.Sound) (hok : writeNew b layer keys values seq c = .ok () c') :
    keys.length ≤ seq.currentLen ∧
      c' = { c with
        pool := c.pool.putRows layer seq.blockTable (seq.currentLen - keys.length)
          (Kv.pick keys values) } := by
  obtain ⟨startToken, hsub, hwrite⟩ := lift_bind_eq_ok.1 hok
  obtain ⟨hle, rfl⟩ := checkedSub_eq_ok.1 hsub
  refine ⟨hle, ?_⟩
  unfold onPool at hwrite
  split at hwrite
  · next u pool hrows =>
    cases hwrite
    have hpool := writeRows_of_ok hb (fun kv blockId hmem =>
      hs kv blockId (howns.2 blockId hmem) layer hl) hrows
    have hwindow : (fun kv => Rows.window (Kv.pick keys values kv) 0 (keys.length - 0)) =
        Kv.pick keys values := by
      funext kv
      cases kv
      · simp [Kv.pick]
      · simp [Kv.pick, ← hlen]
    rw [hpool, hwindow, Nat.add_zero]
  · cases hwrite

/-- The write part goes through on a reliable backend. -/
theorem writeNew_ok (hb : b.Reliable) (hroom : seq.currentLen ≤ blockSize * seq.blockTable.length)
    (hle : keys.length ≤ seq.currentLen) :
    ∃ c', writeNew b layer keys values seq c = .ok () c' := by
  have hrows : ∀ kv : Kv, (kv.pick keys values).length = keys.length := by
    rintro ⟨⟩
    · rfl
    · exact hlen
  obtain ⟨pool, hpool⟩ : ∃ pool, writeRows b layer (seq.currentLen - keys.length) seq.blockTable
      keys values keys.length 0 c.pool = .ok () pool :=
    writeRows_ok hb hs howns.2 hl (by omega) hrows
  refine ⟨{ c with pool }, ?_⟩
  unfold writeNew
  rw [lift_bind_of_ok (checkedSub_eq_ok.2 ⟨hle, rfl⟩), onPool, hpool]

end

/-- A layer-0 append that succeeds found its blocks. -/
theorem extraBlocks_le_of_ok (hfill : seq.lastBlockFill ≤ blockSize)
    (hseq : c.sequences.lookup h = some seq)
    (hok : appendKv b h 0 keys values c = .ok () c') :
    extraBlocks seq.lastBlockFill keys.length ≤ c.pool.freeList.length := by
  by_contra hshort
  rw [appendKv_drained hfill hseq b values (Nat.not_le.1 hshort)] at hok
  cases hok

/-- How an append that succeeds leaves its sequence: the table may be
longer, and the layer's blocks have the new rows at the end. -/
structure AppendOk (h : CacheHandle) (layer : ℕ) (keys values : List R)
    (c c' : PagedKvCacheManager R) (seq seq' : SequenceBlocks) : Prop where
  lookup : c'.sequences.lookup h = some seq'
  fits : seq'.Fits
  len : seq'.currentLen = seq.currentLen + (if layer = 0 then keys.length else 0)
  free : c'.pool.freeList.length +
    (if layer = 0 then extraBlocks seq.lastBlockFill keys.length else 0) = c.pool.freeList.length
  table : ∃ more, seq'.blockTable = seq.blockTable ++ more
  le : keys.length ≤ seq'.currentLen
  writable : ∀ kv, Paging.Writable blockSize seq'.blockTable (c.pool.layer kv layer)
  rows : ∀ kv, c'.pool.layer kv layer = Paging.write blockSize seq'.blockTable
    (c.pool.layer kv layer) (seq'.currentLen - keys.length) (kv.pick keys values)

theorem appendOk_of_ok (hb : b.Sound) (hc : c.Accounted) (hs : c.pool.Shaped)
    (hl : layer < c.pool.numLayers) (hlen : values.length = keys.length)
    (hseq : c.sequences.lookup h = some seq) (hfits : seq.Fits)
    (hok : appendKv b h layer keys values c = .ok () c') :
    ∃ seq', AppendOk h layer keys values c c' seq seq' := by
  by_cases hzero : layer = 0
  · subst hzero
    have henough := extraBlocks_le_of_ok hfits.fill_le hseq hok
    rw [appendKv_grown hfits.fill_le hseq b values henough] at hok
    generalize hn : extraBlocks seq.lastBlockFill keys.length = n at *
    have howns : c.pool.Owns (seq.grow (c.pool.freeList.take n) keys.length).blockTable :=
      hc.owns_grown hseq n
    have hlook : (c.grown h seq keys.length).sequences.lookup h =
        some (seq.grow (c.pool.freeList.take n) keys.length) := by
      rw [← hn]
      exact AList.lookup_insert _
    obtain ⟨hle, rfl⟩ := writeNew_of_ok (c := c.grown h seq keys.length) hs hl howns hlen hb hok
    refine ⟨_, hlook, hfits.grow (by rw [List.length_take]; omega), rfl, ?_, ⟨_, rfl⟩, hle,
      howns.writable hs hl, fun kv => layer_putRows _ _ _ _ _ kv⟩
    change (c.pool.freeList.drop (extraBlocks _ _)).length + _ = _
    rw [List.length_drop, hn, if_pos rfl]
    omega
  · rw [appendKv_of_ne_zero hseq b hzero] at hok
    obtain ⟨hle, rfl⟩ := writeNew_of_ok hs hl (hc.owns hseq) hlen hb hok
    exact ⟨seq, hseq, hfits, by rw [if_neg hzero]; rfl, by rw [if_neg hzero]; rfl,
      ⟨[], (List.append_nil _).symm⟩, hle, (hc.owns hseq).writable hs hl,
      fun kv => layer_putRows _ _ _ _ _ kv⟩

namespace AppendOk

variable {seq' : SequenceBlocks}

theorem length_pick (hlen : values.length = keys.length) (kv : Kv) :
    (kv.pick keys values).length = keys.length := by
  cases kv
  · rfl
  · exact hlen

variable (ha : AppendOk h layer keys values c c' seq seq') (hlen : values.length = keys.length)
include ha hlen

/-- The new rows are stored behind those that were there. -/
theorem stores (hseq : c.sequences.lookup h = some seq) {rows : Kv → List R}
    (hrows : c.Stores h layer rows)
    (hend : ∀ kv, (rows kv).length + keys.length = seq'.currentLen) :
    c'.Stores h layer fun kv => rows kv ++ kv.pick keys values := by
  obtain ⟨seq₀, hseq₀, hrows⟩ := hrows
  cases hseq.symm.trans hseq₀
  refine ⟨seq', ha.lookup, fun kv => ?_⟩
  obtain ⟨more, htable⟩ := ha.table
  have hold := (hrows kv).append_table more
  rw [← htable] at hold
  rw [ha.rows kv, ← hend kv, Nat.add_sub_cancel]
  refine hold.append (ha.writable kv) ?_
  rw [length_pick hlen, hend]
  exact ha.fits.room

/-- The new rows are read back at the end of the sequence. -/
theorem read (kv : Kv) {i : ℕ} (hi : i < keys.length) :
    Paging.read blockSize seq'.blockTable (c'.pool.layer kv layer)
      (seq'.currentLen - keys.length + i) = (kv.pick keys values)[i]? := by
  have hle := ha.le
  have hroom := ha.fits.room
  rw [ha.rows kv, Paging.read_write (ha.writable kv) (by rw [length_pick hlen]; omega),
    if_pos (by rw [length_pick hlen]; omega), Nat.add_sub_cancel_left]

end AppendOk

/-- An append goes through on a reliable backend when there are blocks
for it; on another layer than 0 the length has moved on already. -/
theorem appendKv_ok (hb : b.Reliable) (hc : c.Accounted) (hs : c.pool.Shaped)
    (hl : layer < c.pool.numLayers) (hlen : values.length = keys.length)
    (hseq : c.sequences.lookup h = some seq) (hfits : seq.Fits)
    (hblocks : layer = 0 → extraBlocks seq.lastBlockFill keys.length ≤ c.pool.freeList.length)
    (hmoved : layer ≠ 0 → keys.length ≤ seq.currentLen) :
    ∃ c', appendKv b h layer keys values c = .ok () c' := by
  by_cases hzero : layer = 0
  · subst hzero
    have henough := hblocks rfl
    rw [appendKv_grown hfits.fill_le hseq b values henough]
    have hfits' : (seq.grow (c.pool.freeList.take (extraBlocks seq.lastBlockFill keys.length))
        keys.length).Fits := hfits.grow (by rw [List.length_take]; omega)
    exact writeNew_ok (c := c.grown h seq keys.length) hs hl (hc.owns_grown hseq _) hlen hb
      hfits'.room (Nat.le_add_left _ _)
  · rw [appendKv_of_ne_zero hseq b hzero]
    exact writeNew_ok hs hl (hc.owns hseq) hlen hb hfits.room (hmoved hzero)

end Success

/-! ## Runs that keep every table fitting -/

/-- A cache whose tables all fit. -/
structure Fitting (c : PagedKvCacheManager R) : Prop extends c.Accounted where
  shaped : c.pool.Shaped
  fits : ∀ {h seq}, c.sequences.lookup h = some seq → seq.Fits

namespace Fitting

theorem of_new (hfresh : ∀ {blockId l keys values}, fresh blockId l = .ok (keys, values) →
      keys.length = blockSize ∧ values.length = blockSize)
    (hnew : new fresh numBlocks numLayers numKvHeads headDim = .ok c) : c.Fitting := by
  refine ⟨Accounted.of_new hnew, shaped_new hfresh hnew, fun {h seq} hseq => ?_⟩
  rw [(new_eq_ok hnew).2.2.2.1, AList.lookup_empty] at hseq
  cases hseq

theorem alloc (hc : c.Fitting) : (state (PagedKvCacheManager.alloc c)).Fitting := by
  have hacc := hc.toAccounted.alloc
  cases hlist : c.pool.freeList with
  | nil =>
    rw [alloc_of_nil hlist] at hacc ⊢
    exact ⟨hacc, hc.shaped, hc.fits⟩
  | cons b rest =>
    rw [alloc_of_cons hlist] at hacc ⊢
    exact ⟨hacc, hc.shaped, Assoc.forall_insert (P := fun _ => SequenceBlocks.Fits)
      (fits_first b) hc.fits⟩

theorem free (hc : c.Fitting) (handle : CacheHandle) :
    (state (PagedKvCacheManager.free handle c)).Fitting := by
  have hacc := hc.toAccounted.free handle
  cases hseq : c.sequences.lookup handle with
  | none =>
    rw [free_of_notLive hseq]
    exact hc
  | some seq =>
    rw [free_of_lookup hseq] at hacc ⊢
    exact ⟨hacc, hc.shaped, fun hg => hc.fits (Assoc.lookup_erase_eq_some.1 hg).2⟩

/-- **A call keeps every table fitting**, unless it is an append that ran
out of blocks with some still on the stack. -/
theorem step (hc : c.Fitting) (call : CacheCall R W F)
    (hsound : ∀ {b h layer keys values}, call = .append b h layer keys values → b.Sound)
    (hdry : ∀ {b h keys values seq}, call = .append b h 0 keys values →
      c.sequences.lookup h = some seq →
      c.pool.freeList.length < extraBlocks seq.lastBlockFill keys.length →
      c.pool.freeList = []) : (state (call.run c)).Fitting := by
  cases call with
  | alloc =>
    rw [CacheCall.run, state_bind_pure]
    exact hc.alloc
  | append b h layer keys values =>
    have hstep := appended b h layer keys values fun seq hseq => hc.fill hseq
    refine ⟨hc.toAccounted.append b h layer keys values,
      shaped_appendKv (hsound rfl) hc.shaped layer keys values hc.toAccounted h,
      fits_of_appended hstep hc.fits ?_⟩
    rintro seq rfl hseq hshort
    exact hdry rfl hseq hshort
  | free h => exact hc.free h

end Fitting

end PagedKvCacheManager

end Fracture
