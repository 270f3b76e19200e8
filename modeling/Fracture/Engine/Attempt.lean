import Fracture.Engine.Alone

/-!
# A forward pass that may run out

The refinement of the batched pass to the logical one is about a backend
that has memory for every tensor and a cache with blocks for every row.
Neither is certain in a running server. However a pass ends, it has only
appended (`batchedForward_within`): the same sequences are live, their
tables keep their blocks, and no block is lost.
-/

namespace Fracture

open Effect Rows PagedKvCacheManager

variable {R W F : Type} {b : Backend R W F}

/-! ## A pass that came through -/

section Success

variable {c c' : PagedKvCacheManager R} {L : Logical R} {len : CacheHandle → ℕ}
  {sequences : List SequenceSlice}

/-- The first append of a layer that came through, and the others. -/
theorem appendSlices_cons_inv (hb : b.Sound) {p : Placed} {rest : List Placed} {layer : ℕ}
    {k v : List R} (hok : appendSlices b layer k v (p :: rest) c = .ok () c') :
    ∃ keys values c₁, keys.length = p.count ∧
      appendKv b p.handle layer keys values c = .ok () c₁ ∧
      appendSlices b layer k v rest c₁ = .ok () c' := by
  obtain ⟨kt, hkt, hok⟩ := lift_bind_eq_ok.1 hok
  obtain ⟨vt, -, hok⟩ := lift_bind_eq_ok.1 hok
  obtain ⟨keys, hkeys, hok⟩ := lift_bind_eq_ok.1 hok
  obtain ⟨values, -, hok⟩ := lift_bind_eq_ok.1 hok
  obtain ⟨c₁, happend, hok⟩ := unit_bind_eq_ok.1 hok
  obtain ⟨hsrc, hdst, heq⟩ := hb.copyRows_eq hkeys
  refine ⟨keys, values, c₁, ?_, happend, hok⟩
  rw [heq, length_overwrite (by rwa [length_window hsrc]), hb.alloc_length hkt, Placed.count]

/-- The steps of a batched pass that came through. -/
theorem batchedForward_inv {weights : WeightStore W} {range : LayerRange} {logits : List (List F)}
    (hok : batchedForward b weights range sequences c = .ok logits c') :
    (sequences = [] ∧ logits = [] ∧ c' = c) ∨ ∃ starts x attnOut y normed,
      startPositions c sequences = .ok starts ∧
      batchedLayers b weights (sequences.flatMap (·.positions))
        (place 0 (sequences.map fun s => (s.handle, s.tokenIds.length)) starts)
        range.start range.layers x attnOut c = .ok y c' ∧
      lastLogits b weights normed
        (place 0 (sequences.map fun s => (s.handle, s.tokenIds.length)) starts) = .ok logits := by
  unfold batchedForward at hok
  split at hok
  · next hempty =>
    obtain ⟨rfl, rfl⟩ := pure_eq_ok.1 hok
    exact .inl ⟨List.isEmpty_iff.1 hempty, rfl, rfl⟩
  · rw [get_bind] at hok
    obtain ⟨starts, hstarts, hok⟩ := lift_bind_eq_ok.1 hok
    obtain ⟨x, -, hok⟩ := lift_bind_eq_ok.1 hok
    obtain ⟨attnOut, -, hok⟩ := lift_bind_eq_ok.1 hok
    obtain ⟨y, c₁, hlayers, hok⟩ := bind_eq_ok.1 hok
    obtain ⟨normed, -, hok⟩ := lift_bind_eq_ok.1 hok
    -- the projection of the last rows does not touch the cache
    obtain ⟨hlogits, rfl⟩ := lift_eq_ok.1 hok
    exact .inr ⟨starts, x, attnOut, y, normed, hstarts, hlayers, hlogits⟩

theorem LayerRange.layers_eq_cons {range : LayerRange} (hne : range.start < range.stop) :
    range.layers = range.start :: List.range' (range.start + 1) (range.stop - range.start - 1) := by
  rw [LayerRange.layers, ← List.range'_succ]
  congr 1
  omega

end Success

/-! ## A pass that ended in any way -/

section Any

/-- What appends can do, however they end: no block is lost, the same
sequences are live, and no table loses a block. -/
structure Touched (c c' : PagedKvCacheManager R) : Prop where
  accounted : c'.Accounted
  live : ∀ g, (c'.lenOf g).isSome = (c.lenOf g).isSome
  tables : ∀ {g seq}, c.sequences.lookup g = some seq →
    ∃ seq', c'.sequences.lookup g = some seq' ∧ seq.blockTable <+: seq'.blockTable

def Touches (c c' : PagedKvCacheManager R) : Prop :=
  c.Accounted → Touched c c'

instance : Std.Refl (Touches (R := R)) :=
  ⟨fun _ hacc => ⟨hacc, fun _ => rfl, fun hseq => ⟨_, hseq, List.prefix_rfl⟩⟩⟩

instance : IsTrans _ (Touches (R := R)) := by
  refine ⟨fun c c' c'' h h' hacc => ?_⟩
  have hfirst := h hacc
  have hsecond := h' hfirst.accounted
  refine ⟨hsecond.accounted, fun g => (hsecond.live g).trans (hfirst.live g), fun hseq => ?_⟩
  obtain ⟨seq', hseq', hprefix⟩ := hfirst.tables hseq
  obtain ⟨seq'', hseq'', hprefix'⟩ := hsecond.tables hseq'
  exact ⟨seq'', hseq'', hprefix.trans hprefix'⟩

variable {h : CacheHandle}

section

variable {c c' : PagedKvCacheManager R} {layer numNew : ℕ} (hstep : Appended h layer numNew c c')
include hstep

theorem live_of_appended (g : CacheHandle) : (c'.lenOf g).isSome = (c.lenOf g).isSome := by
  have hlive : ∀ {seq seq'}, c.sequences.lookup h = some seq →
      ((c.sequences.insert h seq').lookup g).isSome = (c.sequences.lookup g).isSome := by
    intro seq seq' hseq
    by_cases hgh : g = h
    · subst hgh
      rw [AList.lookup_insert, hseq]
      rfl
    · rw [AList.lookup_insert_ne hgh]
  simp only [lenOf, Option.isSome_map]
  cases hstep with
  | invalid => rfl
  | written => rfl
  | exhausted hseq => exact hlive hseq
  | grown hseq => exact hlive hseq

/-- A table that is appended to keeps its blocks, and so does any other. -/
theorem tables_of_appended {g : CacheHandle} {seq : SequenceBlocks}
    (hseq : c.sequences.lookup g = some seq) :
    ∃ seq', c'.sequences.lookup g = some seq' ∧ seq.blockTable <+: seq'.blockTable := by
  -- The new entry of `h` has a table that starts with the old one.
  have hgrown : ∀ {old new : SequenceBlocks}, c.sequences.lookup h = some old →
      old.blockTable <+: new.blockTable → ∃ seq',
        (c.sequences.insert h new).lookup g = some seq' ∧ seq.blockTable <+: seq'.blockTable := by
    intro old new hold hprefix
    by_cases hgh : g = h
    · subst hgh
      cases hseq.symm.trans hold
      exact ⟨new, AList.lookup_insert _, hprefix⟩
    · exact ⟨seq, by rwa [AList.lookup_insert_ne hgh], List.prefix_rfl⟩
  cases hstep with
  | invalid => exact ⟨seq, hseq, List.prefix_rfl⟩
  | written => exact ⟨seq, hseq, List.prefix_rfl⟩
  | exhausted hold => exact hgrown hold (List.prefix_append _ _)
  | grown hold => exact hgrown hold (List.prefix_append _ _)

end

theorem appendKv_within (b : Backend R W F) (h : CacheHandle) (layer : ℕ) (keys values : List R) :
    Within Touches (appendKv b h layer keys values) := by
  intro c hacc
  have hstep := appended b h layer keys values fun seq hseq => hacc.fill hseq
  exact ⟨hacc.append b h layer keys values, live_of_appended hstep, tables_of_appended hstep⟩

variable (weights : WeightStore W) (range : LayerRange)

/-- **A batched pass, however it ends, does what its appends do.** -/
theorem batchedForward_of_appendKv {P : PagedKvCacheManager R → PagedKvCacheManager R → Prop}
    [Std.Refl P] [IsTrans _ P] (sequences : List SequenceSlice)
    (happend : ∀ h layer keys values, Within P (appendKv b h layer keys values)) :
    Within P (batchedForward b weights range sequences) := by
  have hslices : ∀ (placed : List Placed) cacheIdx k v,
      Within P (appendSlices b cacheIdx k v placed) := by
    intro placed cacheIdx k v
    induction placed with
    | nil => exact Within.pure ()
    | cons p placed ih =>
      exact (Within.lift _).bind fun _ => (Within.lift _).bind fun _ =>
        (Within.lift _).bind fun _ => (Within.lift _).bind fun _ =>
        (happend p.handle _ _ _).bind fun _ => ih
  have hlayers : ∀ (placed : List Placed) positions first layers x attnOut,
      Within P (batchedLayers b weights positions placed first layers x attnOut) := by
    intro placed positions first layers
    induction layers with
    | nil => exact fun x attnOut => Within.pure _
    | cons layerIdx layers ih =>
      intro x attnOut
      refine (Within.lift _).bind fun w => Within.bind ?_ fun (x, attnOut) => ih x attnOut
      exact (Within.lift _).bind fun (q, k, v) => (hslices placed _ k v).bind fun _ =>
        Within.get.bind fun _ => (Within.lift _).bind fun _ => (Within.lift _).bind fun _ =>
        Within.pure _
  unfold batchedForward
  split
  · exact Within.pure _
  · exact Within.get.bind fun _ => (Within.lift _).bind fun starts => (Within.lift _).bind fun _ =>
      (Within.lift _).bind fun _ => (hlayers _ _ _ _ _ _).bind fun _ =>
      (Within.lift _).bind fun _ => Within.lift _

theorem batchedForward_within (b : Backend R W F) (sequences : List SequenceSlice) :
    Within Touches (batchedForward b weights range sequences) :=
  batchedForward_of_appendKv weights range sequences (appendKv_within b)

end Any

end Fracture
