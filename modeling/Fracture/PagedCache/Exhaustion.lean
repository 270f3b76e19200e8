import Fracture.PagedCache.Stores

/-!
# Running out of blocks

The growth loop pushes every block it takes into the table before it
asks for the next one, and an append that runs out returns without
giving them back. So an append on layer 0 that fails for want of blocks
leaves its sequence and the free stack as they were exactly when the
stack was empty to begin with; otherwise the sequence has swallowed the
stack (`drained`), and its table is longer than its tokens need.

Where the stack is empty each time an append runs out, the tables of all
live sequences keep fitting, and later appends find their place.
-/

namespace Fracture

open Effect BlockPool

variable {R W F : Type}

/-- The backend's row copies fail for other reasons than memory. -/
def Backend.CopiesWithoutOom (b : Backend R W F) : Prop :=
  ∀ src dst srcOff dstOff n requested available,
    b.copyRows src dst srcOff dstOff n ≠ .error (.error (.outOfMemory requested available))

theorem referenceBackend_copiesWithoutOom : referenceBackend.CopiesWithoutOom := by
  intro src dst srcOff dstOff n requested available h
  simp only [referenceBackend] at h
  split at h
  · cases h
  · cases h

/-! ## Where an append's error comes from -/

/-- The fault is a lack of memory. -/
def Fault.IsOom (e : Fault) : Prop :=
  ∃ requested available, e = .error (.outOfMemory requested available)

theorem copyInto_raises {b : Backend R W F} (hcopy : b.CopiesWithoutOom) (kv : Kv) (src : List R)
    (blockId l srcOff offset count : ℕ) :
    Raises (fun e => ¬ e.IsOom) (copyInto b kv src blockId l srcOff offset count) := by
  intro p e p' h
  unfold copyInto at h
  split at h
  · cases h
  · next e' he =>
    cases h
    rintro ⟨requested, available, rfl⟩
    unfold tensor at he
    split at he
    · exact hcopy _ _ _ _ _ _ _ he
    · cases he

/-- The write loop does not run out of memory. -/
theorem writeRows_raises {b : Backend R W F} (hcopy : b.CopiesWithoutOom)
    (layer startToken : ℕ) (table : List ℕ) (keys values : List R) (numNew written : ℕ) :
    Raises (fun e => ¬ e.IsOom)
      (writeRows b layer startToken table keys values numNew written) := by
  fun_induction writeRows with
  | case1 written hlt globalPos offsetInBlock ih =>
    refine (Raises.lift ?_).bind fun blockId => (copyInto_raises hcopy _ _ _ _ _ _ _).bind
      fun _ => (copyInto_raises hcopy _ _ _ _ _ _ _).bind fun _ => ih
    rintro e he ⟨requested, available, rfl⟩
    unfold index at he
    split at he <;> cases he
  | case2 => exact Raises.pure ()

namespace PagedKvCacheManager

variable {c c' : PagedKvCacheManager R} {h : CacheHandle} {keys values : List R} {b : Backend R W F}

theorem writeNew_raises (hcopy : b.CopiesWithoutOom) (layer : ℕ) (keys values : List R)
    (seq : SequenceBlocks) : Raises (fun e => ¬ e.IsOom) (writeNew b layer keys values seq) := by
  refine (Raises.lift ?_).bind fun startToken => ?_
  · rintro e he ⟨requested, available, rfl⟩
    unfold checkedSub at he
    split at he <;> cases he
  · intro c e c' hwrite
    unfold onPool at hwrite
    split at hwrite
    · cases hwrite
    · next e' pool hrows =>
      cases hwrite
      exact writeRows_raises hcopy layer startToken _ keys values _ 0 _ _ _ hrows

/-- **An append on layer 0 that runs out has swallowed the free stack.** -/
theorem eq_drained_of_oom (hcopy : b.CopiesWithoutOom) (hc : c.Accounted) {e : Fault}
    (hoom : e.IsOom) (hfail : appendKv b h 0 keys values c = .error e c') :
    ∃ seq, c.sequences.lookup h = some seq ∧ c' = c.drained h seq := by
  cases hseq : c.sequences.lookup h with
  | none =>
    rw [appendKv_of_notLive hseq] at hfail
    cases hfail
    obtain ⟨requested, available, he⟩ := hoom
    cases he
  | some seq =>
    rcases Nat.lt_or_ge c.pool.freeList.length (extraBlocks seq.lastBlockFill keys.length) with
      hshort | henough
    · rw [appendKv_drained (hc.fill hseq) hseq b values hshort] at hfail
      cases hfail
      exact ⟨seq, rfl, rfl⟩
    · rw [appendKv_grown (hc.fill hseq) hseq b values henough] at hfail
      exact absurd hoom (writeNew_raises hcopy 0 keys values _ _ _ _ hfail)

/-- Having swallowed the stack changes nothing exactly when it was empty. -/
theorem drained_unchanged_iff {seq : SequenceBlocks} (hseq : c.sequences.lookup h = some seq) :
    ((c.drained h seq).sequences.lookup h = c.sequences.lookup h ∧
      (c.drained h seq).pool.freeList = c.pool.freeList) ↔ c.pool.freeList = [] := by
  constructor
  · rintro ⟨-, hfree⟩
    exact hfree.symm
  · intro hdry
    refine ⟨?_, hdry.symm⟩
    rw [hseq]
    refine (AList.lookup_insert _).trans ?_
    rw [hdry, List.append_nil]

/-- In a run of calls, every append on layer 0 that runs out of memory
is made with an empty free stack. -/
def DryOnOom (c : PagedKvCacheManager R) : List (CacheCall R W F) → Prop
  | [] => True
  | call :: calls =>
    (∀ b h keys values e c', call = .append b h 0 keys values → e.IsOom →
      call.run c = .error e c' → c.pool.freeList = []) ∧
    DryOnOom (state (call.run c)) calls

/-- Such a run keeps every table fitting. -/
theorem fitting_of_dryOnOom (hc : c.Fitting) {calls : List (CacheCall R W F)}
    (hsound : ∀ {b h layer keys values}, .append b h layer keys values ∈ calls → b.Sound)
    (hdry : c.DryOnOom calls) : (c.afterCalls calls).Fitting := by
  induction calls generalizing c with
  | nil => exact hc
  | cons call calls ih =>
    refine ih (hc.step call (fun h => hsound (by rw [← h]; exact List.mem_cons_self)) ?_)
      (fun hmem => hsound (List.mem_cons_of_mem _ hmem)) hdry.2
    intro b h keys values seq hcall hseq hshort
    subst hcall
    exact hdry.1 b h keys values _ _ rfl ⟨_, _, rfl⟩
      (appendKv_drained (hc.fill hseq) hseq b values hshort)

/-- A later append that succeeds puts its rows at their place. -/
theorem read_of_appendKv (hb : b.Sound) (hc : c.Fitting) {l : ℕ} (hl : l < c.pool.numLayers)
    (hlen : values.length = keys.length) (hok : appendKv b h l keys values c = .ok () c') :
    ∃ seq', c'.sequences.lookup h = some seq' ∧ keys.length ≤ seq'.currentLen ∧
      ∀ kv : Kv, ∀ i < keys.length,
        Paging.read blockSize seq'.blockTable (c'.pool.layer kv l)
          (seq'.currentLen - keys.length + i) = (kv.pick keys values)[i]? := by
  cases hseq : c.sequences.lookup h with
  | none =>
    rw [appendKv_of_notLive hseq] at hok
    cases hok
  | some seq =>
    obtain ⟨seq', ha⟩ := appendOk_of_ok hb hc.toAccounted hc.shaped hl hlen hseq (hc.fits hseq) hok
    exact ⟨seq', ha.lookup, ha.le, fun kv i hi => ha.read hlen kv hi⟩

/-- **Running out leaves the sequence and the free stack as they were
exactly when the stack was empty.** In a run in which it is empty each
time an append runs out, every table keeps the length its tokens need,
and an append that succeeds later puts token `t` into block
`table[t / 16]` at offset `t % 16`. -/
theorem oom_unchanged_iff_dry {fresh : ℕ → ℕ → Except FractureError (List R × List R)}
    {numBlocks numLayers numKvHeads headDim : ℕ} {c₀ : PagedKvCacheManager R}
    (hfresh : ∀ {blockId l keys values}, fresh blockId l = .ok (keys, values) →
      keys.length = blockSize ∧ values.length = blockSize)
    (hnew : new fresh numBlocks numLayers numKvHeads headDim = .ok c₀)
    (calls : List (CacheCall R W F)) :
    (∀ (b : Backend R W F) (h : CacheHandle) (keys values : List R) (e : Fault)
        (c' : PagedKvCacheManager R), b.CopiesWithoutOom → e.IsOom →
        appendKv b h 0 keys values (c₀.afterCalls calls) = .error e c' →
        ((c'.sequences.lookup h = (c₀.afterCalls calls).sequences.lookup h ∧
          c'.pool.freeList = (c₀.afterCalls calls).pool.freeList) ↔
            (c₀.afterCalls calls).pool.freeList = [])) ∧
    ((∀ {b h layer keys values}, .append b h layer keys values ∈ calls → b.Sound) →
      c₀.DryOnOom calls →
      (∀ {h seq}, (c₀.afterCalls calls).sequences.lookup h = some seq →
        seq.blockTable.length = max 1 ((seq.currentLen + (blockSize - 1)) / blockSize)) ∧
      ∀ (b : Backend R W F) (h : CacheHandle) (l : ℕ) (keys values : List R)
        (c' : PagedKvCacheManager R), b.Sound → l < numLayers → values.length = keys.length →
        appendKv b h l keys values (c₀.afterCalls calls) = .ok () c' →
        ∃ seq', c'.sequences.lookup h = some seq' ∧ keys.length ≤ seq'.currentLen ∧
          ∀ kv : Kv, ∀ i < keys.length,
            Paging.read blockSize seq'.blockTable (c'.pool.layer kv l)
              (seq'.currentLen - keys.length + i) = (kv.pick keys values)[i]?) := by
  have hacc := (Accounted.of_new hnew).afterCalls calls
  refine ⟨?_, ?_⟩
  · intro b h keys values e c' hcopy hoom hfail
    obtain ⟨seq, hseq, rfl⟩ := eq_drained_of_oom hcopy hacc hoom hfail
    exact drained_unchanged_iff hseq
  · intro hsound hdry
    have hfit := fitting_of_dryOnOom (Fitting.of_new hfresh hnew) hsound hdry
    refine ⟨fun hseq => (hfit.fits hseq).length_eq, ?_⟩
    intro b h l keys values c' hb hl hlen hok
    have hlayers := ((Accounted.of_new hnew).geometry_afterCalls calls).2
    rw [(new_eq_ok hnew).2.2.1] at hlayers
    exact read_of_appendKv hb hfit (hlayers ▸ hl) hlen hok

/-- An empty cache of one layer. -/
def smallCache (numBlocks : ℕ) : PagedKvCacheManager ℕ where
  pool := {
    blocks := fun kv _ _ => kv.pick (List.replicate blockSize 0) (List.replicate blockSize 0)
    freeList := List.range numBlocks
    capacity := numBlocks, numLayers := 1, numKvHeads := 1, headDim := 1 }
  sequences := ∅
  nextId := 0

/-- An append of 17 tokens to a sequence that has the only block. -/
theorem oom_unchanged_iff_dry_oneBlock :
    ((state (appendKv referenceBackend 0 0 (List.replicate 17 0) (List.replicate 17 0)
        ((smallCache 1).afterCalls (W := ℕ) (F := ℕ) [.alloc]))).sequences.lookup 0 =
          some ⟨[0], 0, 0⟩ ∧
      (state (appendKv referenceBackend 0 0 (List.replicate 17 0) (List.replicate 17 0)
        ((smallCache 1).afterCalls (W := ℕ) (F := ℕ) [.alloc]))).pool.freeList = []) ∧
    [0].length = max 1 ((0 + (blockSize - 1)) / blockSize) := by
  have hnew : new zeroBlock 1 1 1 1 = .ok (smallCache 1) := rfl
  have hall := oom_unchanged_iff_dry (W := ℕ) (F := ℕ) length_zeroBlock hnew [.alloc]
  have hfail : appendKv referenceBackend 0 0 (List.replicate 17 0) (List.replicate 17 0)
      ((smallCache 1).afterCalls (W := ℕ) (F := ℕ) [.alloc]) =
        .error (.error (.outOfMemory 64 0)) _ := eq_error_of_error? (by decide +kernel)
  have hseq : ((smallCache 1).afterCalls (W := ℕ) (F := ℕ) [.alloc]).sequences.lookup 0 =
      some ⟨[0], 0, 0⟩ := by decide +kernel
  have hdry : ((smallCache 1).afterCalls (W := ℕ) (F := ℕ) [.alloc]).pool.freeList = [] := by
    decide +kernel
  refine ⟨?_, (hall.2 (by simp) ⟨by simp, trivial⟩).1 hseq⟩
  have hsame := (hall.1 _ _ _ _ _ _ referenceBackend_copiesWithoutOom ⟨64, 0, rfl⟩ hfail).2 hdry
  exact ⟨hsame.1.trans hseq, hsame.2.trans hdry⟩

/-- An append of 33 tokens, which need three blocks, to a sequence that
has one of two: it runs out, and its table has grown by the other. -/
theorem oom_grows_table :
    new (fun _ _ => .ok (List.replicate blockSize 0, List.replicate blockSize 0)) 2 1 1 1 =
      .ok (smallCache 2) ∧
    error? (appendKv referenceBackend 0 0 (List.replicate 33 0) (List.replicate 33 0)
      ((smallCache 2).afterCalls (W := ℕ) (F := ℕ) [.alloc])) =
        some (.error (.outOfMemory 64 0)) ∧
    ((smallCache 2).afterCalls (W := ℕ) (F := ℕ) [.alloc]).sequences.lookup 0 = some ⟨[0], 0, 0⟩ ∧
    ((smallCache 2).afterCalls (W := ℕ) (F := ℕ) [.alloc]).pool.freeList = [1] ∧
    (state (appendKv referenceBackend 0 0 (List.replicate 33 0) (List.replicate 33 0)
      ((smallCache 2).afterCalls (W := ℕ) (F := ℕ) [.alloc]))).sequences.lookup 0 =
        some ⟨[0, 1], 0, 0⟩ ∧
    (state (appendKv referenceBackend 0 0 (List.replicate 33 0) (List.replicate 33 0)
      ((smallCache 2).afterCalls (W := ℕ) (F := ℕ) [.alloc]))).pool.freeList = [] := by
  refine ⟨rfl, ?_, ?_, ?_, ?_, ?_⟩ <;> decide +kernel

end PagedKvCacheManager

end Fracture
