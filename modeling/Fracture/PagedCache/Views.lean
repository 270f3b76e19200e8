import Fracture.PagedCache.Stores

/-!
# The logical cache

A logical cache maps a sequence and a layer to the rows cached for them.
`Views c L` says that a paged cache shows `L` through its block tables,
and `Represents c L` that on every layer it shows all the rows of a
sequence and no more, which is how it stands between two forward passes.
Allocating a sequence, appending to one layer and freeing a sequence act
on `L` in the obvious way, so what is above the cache can reason about
`L` and never about blocks.

How many blocks an append needs depends on the length alone
(`blocksFor`), so two caches that show the same logical cache run out
under the same conditions on their free lists.
-/

namespace Fracture

open Effect BlockPool

variable {R W F : Type}

/-- The blocks of a sequence of `len` tokens. -/
def blocksFor (len : ℕ) : ℕ := max 1 ((len + (blockSize - 1)) / blockSize)

/-- The blocks an append takes are those the longer sequence has and the
shorter has not. -/
theorem SequenceBlocks.Fits.extraBlocks_eq {seq : SequenceBlocks} (h : seq.Fits) (numNew : ℕ) :
    extraBlocks seq.lastBlockFill numNew =
      blocksFor (seq.currentLen + numNew) - blocksFor seq.currentLen := by
  have hmore : (List.replicate (extraBlocks seq.lastBlockFill numNew) 0).length =
      extraBlocks seq.lastBlockFill numNew := List.length_replicate
  have hgrown := (h.grow hmore).length_eq
  simp only [SequenceBlocks.grow, List.length_append, List.length_replicate, h.length_eq] at hgrown
  simp only [blocksFor]
  omega

/-- The rows cached for a sequence on a layer. -/
abbrev Logical (R : Type) := CacheHandle → ℕ → Kv → List R

namespace Logical

/-- Rows appended to one layer of a sequence. -/
def append (L : Logical R) (h : CacheHandle) (l : ℕ) (rows : Kv → List R) : Logical R :=
  fun h' l' kv => if h' = h ∧ l' = l then L h l kv ++ rows kv else L h' l' kv

/-- A sequence with nothing cached. -/
def clear (L : Logical R) (h : CacheHandle) : Logical R :=
  fun h' => if h' = h then fun _ _ => [] else L h'

theorem append_self (L : Logical R) (h : CacheHandle) (l : ℕ) (rows : Kv → List R) :
    L.append h l rows h l = fun kv => L h l kv ++ rows kv := by
  funext kv
  simp [append]

theorem append_of_ne (L : Logical R) {h g : CacheHandle} {l l' : ℕ} (rows : Kv → List R)
    (hne : g ≠ h ∨ l' ≠ l) : L.append h l rows g l' = L g l' := by
  funext kv
  unfold append
  rw [if_neg]
  rintro ⟨rfl, rfl⟩
  simp at hne

end Logical

namespace PagedKvCacheManager

variable {c c' : PagedKvCacheManager R} {L : Logical R} {h : CacheHandle} {seq : SequenceBlocks}

/-- The cached length of a live sequence. -/
def lenOf (c : PagedKvCacheManager R) (h : CacheHandle) : Option ℕ :=
  (c.sequences.lookup h).map (·.currentLen)

variable {len : ℕ}

theorem lenOf_eq_some :
    c.lenOf h = some len ↔ ∃ seq, c.sequences.lookup h = some seq ∧ seq.currentLen = len := by
  simp [lenOf]

theorem seqLen_eq_ok : c.seqLen h = .ok len ↔ c.lenOf h = some len := by
  unfold seqLen find lenOf
  cases c.sequences.lookup h with
  | none => simp [bind, Except.bind]
  | some seq => simp [bind, Except.bind, pure, Except.pure]

/-- The number of tokens cached for a sequence, 0 for one that is not live. -/
def cachedLen (c : PagedKvCacheManager R) (h : CacheHandle) : ℕ := (c.lenOf h).getD 0

theorem lenOf_eq_cachedLen (hlive : (c.lenOf h).isSome) : c.lenOf h = some (c.cachedLen h) := by
  obtain ⟨len, hlen⟩ := Option.isSome_iff_exists.1 hlive
  simp [cachedLen, hlen]

/-- The cache shows the rows of `L` through its tables. -/
structure Views (c : PagedKvCacheManager R) (L : Logical R) : Prop extends c.Fitting where
  stores : ∀ {h seq}, c.sequences.lookup h = some seq →
    ∀ {l}, l < c.pool.numLayers → c.Stores h l (L h l)

/-- The cache shows the rows of `L`, and these are all its tokens. -/
structure Represents (c : PagedKvCacheManager R) (L : Logical R) : Prop extends c.Views L where
  level : ∀ {h len}, c.lenOf h = some len → ∀ {l}, l < c.pool.numLayers →
    ∀ kv, (L h l kv).length = len

/-- What appends to the sequences `hs` leave alone, and the blocks they take. -/
structure Moves (hs : List CacheHandle) (blocks : ℕ) (c c' : PagedKvCacheManager R) : Prop where
  others : ∀ {g}, g ∉ hs → c'.lenOf g = c.lenOf g
  numLayers : c'.pool.numLayers = c.pool.numLayers
  free : c'.numFreeBlocks + blocks = c.numFreeBlocks

namespace Moves

theorem refl (hs : List CacheHandle) (c : PagedKvCacheManager R) : Moves hs 0 c c :=
  ⟨fun _ => rfl, rfl, rfl⟩

variable {hs : List CacheHandle} {m n : ℕ} {c'' : PagedKvCacheManager R} (h₁ : Moves hs m c c')
include h₁

theorem trans {hs' : List CacheHandle} (h₂ : Moves hs' n c' c'') :
    Moves (hs ++ hs') (m + n) c c'' := by
  refine ⟨fun {g} hg => ?_, h₂.numLayers.trans h₁.numLayers, ?_⟩
  · rw [List.mem_append, not_or] at hg
    exact (h₂.others hg.2).trans (h₁.others hg.1)
  · have := h₁.free
    have := h₂.free
    omega

/-- Moving the same sequences again. -/
theorem trans_same (h₂ : Moves hs n c' c'') : Moves hs (m + n) c c'' := by
  refine ⟨fun {g} hg => (h₁.trans h₂).others (by simp [hg]), (h₁.trans h₂).numLayers,
    (h₁.trans h₂).free⟩

end Moves

/-- **An append on a reliable backend appends to the logical cache.** On
layer 0 it needs the blocks and moves the length on; on the other layers
the length is that of the rows after the append. -/
theorem Views.append {b : Backend R W F} (hb : b.Reliable) (hc : c.Views L) {l : ℕ}
    (hl : l < c.pool.numLayers) {keys values : List R} (hlen : values.length = keys.length)
    (hlive : c.lenOf h = some (if l = 0 then len else len + keys.length))
    (hrows : ∀ kv, (L h l kv).length = len)
    (hfree : l = 0 → blocksFor (len + keys.length) - blocksFor len ≤ c.numFreeBlocks) :
    ∃ c', appendKv b h l keys values c = .ok () c' ∧
      c'.Views (L.append h l (Kv.pick keys values)) ∧
      c'.lenOf h = some (len + keys.length) ∧
      Moves [h] (if l = 0 then blocksFor (len + keys.length) - blocksFor len else 0) c c' := by
  obtain ⟨seq, hseq, hcur⟩ := lenOf_eq_some.1 hlive
  have hfits := hc.fits hseq
  have hextra := hfits.extraBlocks_eq keys.length
  have hstep := appended b h l keys values fun seq hseq => hc.fill hseq
  obtain ⟨c', hok⟩ : ∃ c', appendKv b h l keys values c = .ok () c' := by
    refine appendKv_ok hb hc.toAccounted hc.shaped hl hlen hseq hfits (fun hzero => ?_)
      fun hne => ?_
    · rw [if_pos hzero] at hcur
      rw [hextra, hcur]
      exact hfree hzero
    · rw [if_neg hne] at hcur
      omega
  rw [hok, state_ok] at hstep
  obtain ⟨seq', hdone⟩ := appendOk_of_ok hb.toSound hc.toAccounted hc.shaped hl hlen hseq hfits hok
  have hcur' : seq'.currentLen = len + keys.length := by
    rw [hdone.len, hcur]
    split <;> omega
  have hnew : c'.Fitting := by
    have hsteps := hc.toFitting.step (.append b h l keys values) (fun heq => ?_) ?_
    · rwa [CacheCall.run, hok, state_ok] at hsteps
    · cases heq
      exact hb.toSound
    · rintro b' h' keys' values' seq₀ heq hseq₀ hshort
      cases heq
      cases hseq.symm.trans hseq₀
      have := extraBlocks_le_of_ok hfits.fill_le hseq hok
      omega
  refine ⟨c', hok, ⟨hnew, fun {g gseq} hg {l'} hl' => ?_⟩, ?_, ?_⟩
  · rw [(geometry_of_appended hstep).2] at hl'
    by_cases hsame : g = h ∧ l' = l
    · obtain ⟨rfl, rfl⟩ := hsame
      rw [Logical.append_self]
      exact hdone.stores hlen hseq (hc.stores hseq hl) fun kv => by rw [hrows kv, hcur']
    · have hother : g ≠ h ∨ l' ≠ l := not_and_or.1 hsame
      obtain ⟨gseq₀, hg₀⟩ : ∃ gseq₀, c.sequences.lookup g = some gseq₀ := by
        by_cases hgh : g = h
        · exact ⟨seq, hgh ▸ hseq⟩
        · exact ⟨gseq, (lookup_of_appended hstep hgh).symm.trans hg⟩
      rw [Logical.append_of_ne L _ hother]
      exact stores_of_appended hstep hc.toAccounted hother (hc.stores hg₀ hl')
  · exact lenOf_eq_some.2 ⟨seq', hdone.lookup, hcur'⟩
  · refine ⟨fun hne => ?_, (geometry_of_appended hstep).2, ?_⟩
    · rw [lenOf, lenOf, lookup_of_appended hstep (by simpa using hne)]
    · have hfreed := hdone.free
      by_cases hzero : l = 0
      · rw [if_pos hzero, hextra, hcur, if_pos hzero] at hfreed
        rw [if_pos hzero]
        exact hfreed
      · rw [if_neg hzero] at hfreed ⊢
        exact hfreed

/-! ## Whole caches -/

/-- What an allocation changes. -/
structure AllocOk (c : PagedKvCacheManager R) (h : CacheHandle) (c' : PagedKvCacheManager R) :
    Prop where
  handle : h = c.nextId
  live : c'.lenOf h = some 0
  others : ∀ {g}, g ≠ h → c'.lenOf g = c.lenOf g
  nextId : c'.nextId = c.nextId + 1
  numLayers : c'.pool.numLayers = c.pool.numLayers
  free : c'.numFreeBlocks + 1 = c.numFreeBlocks

theorem alloc_eq_ok (hfree : c.numFreeBlocks ≠ 0) : ∃ c', alloc c = .ok c.nextId c' := by
  cases hlist : c.pool.freeList with
  | nil => exact absurd (by rw [numFreeBlocks, BlockPool.numFree, hlist]; rfl) hfree
  | cons b rest => exact ⟨_, alloc_of_cons hlist⟩

theorem allocOk (hok : alloc c = .ok h c') : AllocOk c h c' := by
  obtain ⟨b, rest, hlist, rfl, rfl⟩ := alloc_inv hok
  refine ⟨rfl, congrArg _ (AList.lookup_insert _),
    fun hne => congrArg _ (AList.lookup_insert_ne hne), rfl, rfl, ?_⟩
  rw [numFreeBlocks, numFreeBlocks, BlockPool.numFree, BlockPool.numFree, hlist,
    List.length_cons]

/-- An allocation fails when there is no free block, and takes none. -/
theorem of_alloc_error {e : Fault} (herr : alloc c = .error e c') :
    c.numFreeBlocks = 0 ∧ c'.sequences = c.sequences ∧ c'.pool = c.pool := by
  cases hlist : c.pool.freeList with
  | nil =>
    rw [alloc_of_nil hlist] at herr
    cases herr
    exact ⟨by rw [numFreeBlocks, BlockPool.numFree, hlist]; rfl, rfl, rfl⟩
  | cons b rest =>
    rw [alloc_of_cons hlist] at herr
    cases herr

theorem numFreeBlocks_of_alloc_error {e : Fault} (herr : alloc c = .error e c') :
    c'.numFreeBlocks = 0 := by
  obtain ⟨hnone, -, hpool⟩ := of_alloc_error herr
  rwa [numFreeBlocks, hpool]

/-- An allocation leaves the tables of the other sequences alone. -/
theorem lookup_of_alloc {g : CacheHandle} (hok : alloc c = .ok h c') (hne : g ≠ h) :
    c'.sequences.lookup g = c.sequences.lookup g := by
  obtain ⟨b, rest, -, rfl, rfl⟩ := alloc_inv hok
  exact AList.lookup_insert_ne hne

/-- What freeing a sequence changes. -/
structure FreeOk (c : PagedKvCacheManager R) (h : CacheHandle) (c' : PagedKvCacheManager R) :
    Prop where
  gone : c'.lenOf h = none
  others : ∀ {g}, g ≠ h → c'.lenOf g = c.lenOf g
  numLayers : c'.pool.numLayers = c.pool.numLayers

theorem free_eq_ok (hlive : c.lenOf h = some len) : ∃ c', free h c = .ok () c' := by
  obtain ⟨seq, hseq, -⟩ := lenOf_eq_some.1 hlive
  exact ⟨_, free_of_lookup hseq⟩

theorem freeOk (hok : free h c = .ok () c') : FreeOk c h c' := by
  obtain ⟨seq, rfl⟩ := free_inv hok
  exact ⟨congrArg _ (AList.lookup_erase h c.sequences),
    fun hne => congrArg _ (AList.lookup_erase_ne hne), rfl⟩

namespace Represents

/-- A new sequence has nothing cached and the others stay. -/
theorem alloc (hc : c.Represents L) (hok : alloc c = .ok h c') : c'.Represents (L.clear h) := by
  have hfit := hc.toFitting.alloc
  rw [hok, state_ok] at hfit
  obtain ⟨b, rest, -, rfl, rfl⟩ := alloc_inv hok
  refine ⟨⟨hfit, fun {g gseq} hg {l} hl => ?_⟩, fun {g len} hlive {l} hl kv => ?_⟩
  · by_cases hnew : g = c.nextId
    · subst hnew
      refine ⟨gseq, hg, fun kv => ?_⟩
      rw [Logical.clear, if_pos rfl]
      exact Paging.Holds.nil
    · have hg₀ := (AList.lookup_insert_ne hnew).symm.trans hg
      rw [Logical.clear, if_neg hnew]
      exact (hc.stores hg₀ hl).congr (AList.lookup_insert_ne hnew) rfl
  · by_cases hnew : g = c.nextId
    · subst hnew
      rw [lenOf, AList.lookup_insert] at hlive
      cases hlive
      rw [Logical.clear, if_pos rfl]
      rfl
    · rw [lenOf, AList.lookup_insert_ne hnew] at hlive
      rw [Logical.clear, if_neg hnew]
      exact hc.level hlive hl kv

/-- A freed sequence is gone and the others stay. -/
theorem free (hc : c.Represents L) (hok : free h c = .ok () c') : c'.Represents L := by
  have hfit := hc.toFitting.free h
  rw [hok, state_ok] at hfit
  obtain ⟨seq, rfl⟩ := free_inv hok
  have hothers : ∀ {g gseq}, (c.sequences.erase h).lookup g = some gseq →
      c.sequences.lookup g = some gseq := fun hg => (Assoc.lookup_erase_eq_some.1 hg).2
  refine ⟨⟨hfit, fun {g gseq} hg {l} hl => ?_⟩, fun {g len} hlive {l} hl => ?_⟩
  · have hstored := hc.stores (hothers hg) hl
    refine hstored.congr ?_ rfl
    rw [hothers hg]
    exact hg
  · obtain ⟨gseq, hg, rfl⟩ := lenOf_eq_some.1 hlive
    exact hc.level (lenOf_eq_some.2 ⟨gseq, hothers hg, rfl⟩) hl

end Represents

/-! ## Equal contents -/

/-- The row the attention kernel finds for a token of a sequence. -/
def row (c : PagedKvCacheManager R) (h : CacheHandle) (l : ℕ) (kv : Kv) (t : ℕ) : Option R :=
  (c.sequences.lookup h).bind fun seq =>
    Paging.read blockSize seq.blockTable (c.pool.layer kv l) t

/-- The rows a cache has for each sequence, whatever they are. -/
def contents (c : PagedKvCacheManager R) : Logical R :=
  fun h l kv => (List.range (c.cachedLen h)).filterMap (c.row h l kv)

/-- **A cache whose tables fit represents what is in it.** -/
theorem Fitting.represents (hc : c.Fitting) : c.Represents c.contents := by
  have hread : ∀ {h seq}, c.sequences.lookup h = some seq → ∀ {l}, l < c.pool.numLayers →
      ∀ kv, (c.contents h l kv).length = seq.currentLen ∧
        Paging.Holds blockSize seq.blockTable (c.pool.layer kv l) (c.contents h l kv) := by
    intro h seq hseq l hl kv
    have hlen : c.cachedLen h = seq.currentLen := by simp [cachedLen, lenOf, hseq]
    have hrow : c.row h l kv = Paging.read blockSize seq.blockTable (c.pool.layer kv l) := by
      funext t
      simp [PagedKvCacheManager.row, hseq]
    unfold contents
    rw [hlen, hrow]
    refine Paging.Holds.of_read fun t ht => ?_
    have hwritable := (hc.owns hseq).writable hc.shaped hl kv
    exact Paging.exists_read hwritable.pos hwritable.page_length
      (Nat.lt_of_lt_of_le ht (hc.fits hseq).room)
  refine ⟨⟨hc, fun {h seq} hseq {l} hl => ⟨seq, hseq, fun kv => (hread hseq hl kv).2⟩⟩, ?_⟩
  intro h len hlive l hl kv
  obtain ⟨seq, hseq, rfl⟩ := lenOf_eq_some.1 hlive
  exact (hread hseq hl kv).1

/-- Two caches with the same sequences, the same lengths and the same
rows; where the rows are kept may differ. -/
structure SameContents (c c' : PagedKvCacheManager R) : Prop where
  len : ∀ h, c.lenOf h = c'.lenOf h
  row : ∀ {h len}, c.lenOf h = some len → ∀ l < c.pool.numLayers, ∀ kv, ∀ t < len,
    c.row h l kv t = c'.row h l kv t

theorem Represents.row_eq (hc : c.Represents L) (hlive : c.lenOf h = some len) {l : ℕ}
    (hl : l < c.pool.numLayers) (kv : Kv) {t : ℕ} (ht : t < len) :
    c.row h l kv t = (L h l kv)[t]? := by
  obtain ⟨seq, hseq, -⟩ := lenOf_eq_some.1 hlive
  obtain ⟨seq', hseq', hholds⟩ := hc.stores hseq hl
  cases hseq.symm.trans hseq'
  rw [PagedKvCacheManager.row, hseq, Option.bind_some]
  exact hholds kv t (by rwa [hc.level hlive hl kv])

/-- Two caches that represent the same logical cache have the same contents. -/
theorem Represents.sameContents {L' : Logical R} (hc : c.Represents L) (hc' : c'.Represents L')
    (hlen : ∀ h, c.lenOf h = c'.lenOf h) (hlayers : c'.pool.numLayers = c.pool.numLayers)
    (hrows : ∀ {h len}, c.lenOf h = some len → ∀ l < c.pool.numLayers, ∀ kv,
      L h l kv = L' h l kv) : c.SameContents c' := by
  refine ⟨hlen, fun {h len} hlive l hl kv t ht => ?_⟩
  rw [hc.row_eq hlive hl kv ht, hc'.row_eq (hlen h ▸ hlive) (hlayers.symm ▸ hl) kv ht,
    hrows hlive l hl kv]

end PagedKvCacheManager

end Fracture
