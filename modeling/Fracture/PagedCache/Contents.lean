import Fracture.PagedCache.Stores

/-!
# The cache holds what was appended

A run in which no call fails, and in which every append goes through the
layers in order with one row count, leaves each live sequence with
exactly the rows that were appended to it on each layer, at the
addresses the attention kernel reads. The appends of different sequences
may interleave in any way, and a sequence may be half way through its
layers while others move.

The run is followed with its own log: `appendsOf` are the appends made
to a handle so far, and the invariant `Logged` says what each layer
holds of them. Between two whole appends the layers below the next one
to be written are ahead by one group of rows, and that group's row count
is what `pending` adds for the layers behind.
-/

namespace Fracture

open Effect BlockPool

variable {R W F : Type}

/-- One append to a sequence, as the caller made it. -/
structure Chunk (R : Type) where
  layer : ℕ
  keys : List R
  values : List R

/-- The appends made to a handle, in order. -/
def appendsOf (h : CacheHandle) (calls : List (CacheCall R W F)) : List (Chunk R) :=
  calls.filterMap fun
    | .append _ g layer keys values => if g = h then some ⟨layer, keys, values⟩ else none
    | _ => none

/-- The key or value rows among a list of appends on one layer, in order. -/
def rowsOn (l : ℕ) (chunks : List (Chunk R)) (kv : Kv) : List R :=
  (chunks.filter fun a => a.layer = l).flatMap fun a => kv.pick a.keys a.values

/-- Appends go through the layers `0, …, L - 1` in order, again and again,
with one row count per round, the same for keys and values. -/
def LayersInOrder (L : ℕ) (chunks : List (Chunk R)) : Prop :=
  ∀ i a, chunks[i]? = some a → a.layer = i % L ∧ a.values.length = a.keys.length ∧
    ∀ first, chunks[L * (i / L)]? = some first → a.keys.length = first.keys.length

/-- The rows layer `l` still lacks of the round under way. -/
def pending (L l : ℕ) (chunks : List (Chunk R)) : ℕ :=
  if 0 < chunks.length % L ∧ chunks.length % L ≤ l then
    ((chunks[L * (chunks.length / L)]?).map fun a => a.keys.length).getD 0
  else 0

namespace PagedKvCacheManager

/-- Make the calls one after another, up to the first that fails. -/
def runCalls : List (CacheCall R W F) → EStateM Fault (PagedKvCacheManager R) Unit
  | [] => pure ()
  | call :: calls => do
    call.run
    runCalls calls

/-! ## The log -/

section

variable (h : CacheHandle) (xs : List (CacheCall R W F))

theorem appendsOf_append (ys : List (CacheCall R W F)) :
    appendsOf h (xs ++ ys) = appendsOf h xs ++ appendsOf h ys :=
  List.filterMap_append

theorem appendsOf_alloc : appendsOf h (xs ++ [.alloc]) = appendsOf h xs := by
  simp [appendsOf]

theorem appendsOf_free (g : CacheHandle) : appendsOf h (xs ++ [.free g]) = appendsOf h xs := by
  simp [appendsOf]

theorem appendsOf_self (b : Backend R W F) (layer : ℕ) (keys values : List R) :
    appendsOf h (xs ++ [.append b h layer keys values]) =
      appendsOf h xs ++ [⟨layer, keys, values⟩] := by
  simp [appendsOf]

end

theorem appendsOf_ne {h g : CacheHandle} (hne : g ≠ h) (xs : List (CacheCall R W F))
    (b : Backend R W F) (layer : ℕ) (keys values : List R) :
    appendsOf h (xs ++ [.append b g layer keys values]) = appendsOf h xs := by
  simp [appendsOf, hne]

theorem rowsOn_append_self (chunks : List (Chunk R)) (a : Chunk R) (kv : Kv) :
    rowsOn a.layer (chunks ++ [a]) kv = rowsOn a.layer chunks kv ++ kv.pick a.keys a.values := by
  simp [rowsOn, List.filter_append, List.flatMap_append]

theorem rowsOn_append_ne {l : ℕ} (chunks : List (Chunk R)) {a : Chunk R} (hne : a.layer ≠ l)
    (kv : Kv) : rowsOn l (chunks ++ [a]) kv = rowsOn l chunks kv := by
  simp [rowsOn, List.filter_append, hne]

theorem layersInOrder_of_append {L : ℕ} {xs ys : List (Chunk R)}
    (h : LayersInOrder L (xs ++ ys)) : LayersInOrder L xs := by
  intro i a hi
  have hlt : i < xs.length := (List.getElem?_eq_some_iff.1 hi).1
  obtain ⟨hlayer, hlen, hfirst⟩ := h i a (by rw [List.getElem?_append_left hlt, hi])
  refine ⟨hlayer, hlen, fun first hf => hfirst first ?_⟩
  rw [List.getElem?_append_left ((List.getElem?_eq_some_iff.1 hf).1), hf]

/-! ## One round over the layers -/

section Pending

variable {L l : ℕ} {chunks : List (Chunk R)} {a : Chunk R}

theorem pending_nil : pending L l ([] : List (Chunk R)) = 0 := by
  simp [pending]

/-- Between rounds no layer lacks rows. -/
theorem pending_of_dvd (h : L ∣ chunks.length) : pending L l chunks = 0 := by
  rw [pending, if_neg (by rw [Nat.mod_eq_zero_of_dvd h]; omega)]

/-- The next append settles its own layer, and if it opens a round every
other layer now lacks its rows. -/
theorem pending_append (hL : 0 < L) (hl : l < L) (hord : LayersInOrder L (chunks ++ [a])) :
    pending L l (chunks ++ [a]) + (if l = a.layer then a.keys.length else 0) =
      pending L l chunks + (if a.layer = 0 then a.keys.length else 0) := by
  obtain ⟨hlayer, -, hfirst⟩ := hord chunks.length a (by simp)
  have hi := Nat.div_add_mod chunks.length L
  have hm := Nat.mod_lt chunks.length hL
  unfold pending
  generalize chunks.length / L = q at *
  generalize chunks.length % L = m at *
  -- the opener of the round has the row count of this append
  have hnew : ((chunks ++ [a])[L * q]?).map (fun a => a.keys.length) = some a.keys.length := by
    have hlt : L * q < (chunks ++ [a]).length := by
      rw [List.length_append, List.length_singleton]
      omega
    rw [List.getElem?_eq_getElem hlt, Option.map_some,
      hfirst _ (List.getElem?_eq_getElem hlt)]
  have hold : 0 < m → (chunks[L * q]?).map (fun a => a.keys.length) = some a.keys.length := by
    intro hpos
    rwa [List.getElem?_append_left (by omega)] at hnew
  rw [List.length_append, List.length_singleton, hlayer, ← hi]
  by_cases hmore : m + 1 < L
  · have hdiv : (L * q + m + 1) / L = q := by
      rw [Nat.add_assoc, Nat.mul_add_div hL, Nat.div_eq_of_lt hmore, Nat.add_zero]
    have hmod : (L * q + m + 1) % L = m + 1 := by
      rw [Nat.add_assoc, Nat.mul_add_mod, Nat.mod_eq_of_lt hmore]
    rw [hdiv, hmod, hnew]
    rcases Nat.eq_zero_or_pos m with rfl | hpos
    · rcases Nat.eq_zero_or_pos l with rfl | hlpos
      · simp
      · simp (disch := omega) only [if_pos, if_neg, if_true, Option.getD_some]
        omega
    · rw [hold hpos]
      rcases Nat.lt_trichotomy l m with hlm | rfl | hlm <;>
        simp (disch := omega) only [if_pos, if_neg, if_true, Option.getD_some, Nat.zero_add,
          Nat.add_zero]
  · -- the round ends here
    have hmod : (L * q + m + 1) % L = 0 := by
      rw [Nat.add_assoc, Nat.mul_add_mod, show m + 1 = L by omega, Nat.mod_self]
    rw [hmod]
    rcases Nat.eq_zero_or_pos m with rfl | hpos
    · simp [show l = 0 by omega]
    · rw [hold hpos]
      rcases Nat.lt_or_eq_of_le (show l ≤ m by omega) with hlm | rfl <;>
        simp (disch := omega) only [if_pos, if_neg, if_true, Option.getD_some, Nat.zero_add,
          Nat.add_zero]

/-- A layer lacks nothing right after its own append. -/
theorem pending_own (hL : 0 < L) (hl : l = chunks.length % L) :
    pending L l (chunks ++ [a]) = 0 := by
  have hnext : (chunks.length + 1) % L = 0 ∨ (chunks.length + 1) % L = chunks.length % L + 1 := by
    have hm := Nat.mod_lt chunks.length hL
    rw [← Nat.mod_add_mod]
    rcases Nat.lt_or_eq_of_le (show chunks.length % L + 1 ≤ L from hm) with hlt | heq
    · exact Or.inr (Nat.mod_eq_of_lt hlt)
    · exact Or.inl (by rw [heq, Nat.mod_self])
  rw [pending, List.length_append, List.length_singleton, if_neg (by omega)]

/-- The rows of a layer after one more append. -/
theorem length_rowsOn_append (h : a.values.length = a.keys.length) (l : ℕ) (chunks : List (Chunk R))
    (kv : Kv) :
    (rowsOn l (chunks ++ [a]) kv).length =
      (rowsOn l chunks kv).length + (if l = a.layer then a.keys.length else 0) := by
  by_cases hl : l = a.layer
  · subst hl
    rw [rowsOn_append_self, List.length_append, if_pos rfl]
    cases kv
    · rfl
    · rw [Kv.pick, h]
  · rw [rowsOn_append_ne _ (Ne.symm hl), if_neg hl, Nat.add_zero]

end Pending

/-! ## The invariant -/

/-- The cache after the calls `done`: what each live sequence holds on
each layer is what was appended to it there. -/
structure Logged (L : ℕ) (done : List (CacheCall R W F)) (c : PagedKvCacheManager R) : Prop
    extends c.Fitting where
  layers : c.pool.numLayers = L
  /-- Nothing was ever appended to a handle still to be given out. -/
  unused : ∀ h, c.nextId ≤ h → appendsOf h done = []
  stored : ∀ {h seq}, c.sequences.lookup h = some seq →
    ∀ l < L, c.Stores h l (rowsOn l (appendsOf h done))
  length : ∀ {h seq}, c.sequences.lookup h = some seq → ∀ l < L, ∀ kv,
    (rowsOn l (appendsOf h done) kv).length + pending L l (appendsOf h done) = seq.currentLen

namespace Logged

variable {L : ℕ} {done : List (CacheCall R W F)} {c c' : PagedKvCacheManager R}

/-- A new cache holds no sequence, so there is nothing to say about rows. -/
theorem of_new {fresh : ℕ → ℕ → Except FractureError (List R × List R)}
    {numBlocks numKvHeads headDim : ℕ}
    (hfresh : ∀ {blockId l keys values}, fresh blockId l = .ok (keys, values) →
      keys.length = blockSize ∧ values.length = blockSize)
    (hnew : new fresh numBlocks L numKvHeads headDim = .ok c) : Logged (W := W) (F := F) L [] c := by
  obtain ⟨-, -, hlayers, hseqs, -⟩ := new_eq_ok hnew
  have hnone : ∀ {h seq}, c.sequences.lookup h = some seq → False := by
    intro h seq hseq
    rw [hseqs, AList.lookup_empty] at hseq
    cases hseq
  exact ⟨Fitting.of_new hfresh hnew, hlayers, fun _ _ => rfl, fun h => (hnone h).elim,
    fun h => (hnone h).elim⟩

variable (hc : Logged L done c)
include hc

/-- A call that succeeds ran out of nothing, so it keeps tables fitting. -/
theorem fitting_of_ok {call : CacheCall R W F}
    (hsound : ∀ {b h layer keys values}, call = .append b h layer keys values → b.Sound)
    (hok : call.run c = .ok () c') : c'.Fitting := by
  have hfit := hc.toFitting.step call hsound fun {b h keys values seq} hcall hseq hshort => by
    subst hcall
    have henough := extraBlocks_le_of_ok (hc.fill hseq) hseq hok
    omega
  rwa [hok] at hfit

/-- Allocating a sequence: the new handle has no log. -/
theorem alloc (hok : CacheCall.run (W := W) (F := F) .alloc c = .ok () c') :
    Logged L (done ++ [.alloc]) c' := by
  have hfit := hc.fitting_of_ok (fun h => by cases h) hok
  obtain ⟨id, c₁, halloc, hpure⟩ := bind_eq_ok.1 hok
  obtain ⟨-, rfl⟩ := pure_eq_ok.1 hpure
  obtain ⟨b, rest, -, rfl, rfl⟩ := alloc_inv halloc
  have hlog : appendsOf c.nextId done = [] := hc.unused _ (le_refl _)
  have hother : ∀ {h : CacheHandle}, h ≠ c.nextId → (c.sequences.insert c.nextId
      ⟨[b], 0, 0⟩).lookup h = c.sequences.lookup h := fun hne => AList.lookup_insert_ne hne
  refine ⟨hfit, hc.layers, ?_, ?_, ?_⟩
  · intro h hle
    rw [appendsOf_alloc]
    exact hc.unused h (Nat.le_of_succ_le hle)
  · intro h seq hseq l hl
    rw [appendsOf_alloc]
    by_cases hh : h = c.nextId
    · subst hh
      rw [hlog]
      exact ⟨_, AList.lookup_insert _, fun _ => Paging.Holds.nil⟩
    · exact (hc.stored ((hother hh).symm.trans hseq) l hl).congr (hother hh) rfl
  · intro h seq hseq l hl kv
    rw [appendsOf_alloc]
    by_cases hh : h = c.nextId
    · subst hh
      cases (AList.lookup_insert _).symm.trans hseq
      rw [hlog, pending_nil]
      rfl
    · exact hc.length ((hother hh).symm.trans hseq) l hl kv

/-- Freeing a sequence: its blocks change hands, and the other
sequences' blocks keep their rows. -/
theorem free {g : CacheHandle} (hok : CacheCall.run (W := W) (F := F) (.free g) c = .ok () c') :
    Logged L (done ++ [.free g]) c' := by
  have hfit := hc.fitting_of_ok (fun h => by cases h) hok
  rw [CacheCall.run] at hok
  obtain ⟨gseq, rfl⟩ := free_inv hok
  refine ⟨hfit, hc.layers, ?_, ?_, ?_⟩
  · intro h hle
    rw [appendsOf_free]
    exact hc.unused h hle
  · intro h seq hseq l hl
    rw [appendsOf_free]
    obtain ⟨hne, hseq'⟩ := Assoc.lookup_erase_eq_some.1 hseq
    exact (hc.stored hseq' l hl).congr (AList.lookup_erase_ne hne) rfl
  · intro h seq hseq l hl kv
    rw [appendsOf_free]
    exact hc.length (Assoc.lookup_erase_eq_some.1 hseq).2 l hl kv

/-- An append: the sequence's other layers and the other sequences are
left alone, and the layer written gets the new rows. -/
theorem append {b : Backend R W F} (hb : b.Sound) {g : CacheHandle} {layer : ℕ}
    {keys values : List R}
    (hord : LayersInOrder L (appendsOf g (done ++ [.append b g layer keys values])))
    (hok : CacheCall.run (.append b g layer keys values) c = .ok () c') :
    Logged L (done ++ [.append b g layer keys values]) c' := by
  have hfit := hc.fitting_of_ok (fun h => by cases h; exact hb) hok
  have hlayers := (hc.geometry_run (.append b g layer keys values)).2
  have hstep := appended b g layer keys values fun seq hseq => hc.fill hseq
  rw [CacheCall.run] at hok hlayers
  rw [hok] at hstep hlayers
  simp only [state_ok] at hstep hlayers
  obtain ⟨seq, hseq⟩ : ∃ seq, c.sequences.lookup g = some seq := by
    cases hg : c.sequences.lookup g with
    | none =>
      rw [appendKv_of_notLive hg] at hok
      cases hok
    | some seq => exact ⟨seq, rfl⟩
  have hg : g < c'.nextId := by
    rw [nextId_of_appended hstep]
    exact hc.fresh g (AList.lookup_isSome.1 (by rw [hseq]; rfl))
  rw [appendsOf_self] at hord
  obtain ⟨hlayer, hlen, -⟩ : layer = (appendsOf g done).length % L ∧
      values.length = keys.length ∧ _ := hord (appendsOf g done).length _ (by simp; rfl)
  have hround := fun {l : ℕ} (hl : l < L) => pending_append (Nat.zero_lt_of_lt hl) hl hord
  -- the sequence after the append, for a cache that has layers at all
  have hafter := fun hL : 0 < L => appendOk_of_ok hb hc.toAccounted hc.shaped
    (show layer < c.pool.numLayers by rw [hc.layers, hlayer]; exact Nat.mod_lt _ hL)
    hlen hseq (hc.fits hseq) hok
  refine ⟨hfit, hlayers.trans hc.layers, ?_, ?_, ?_⟩
  · intro h hle
    rw [appendsOf_ne (Nat.ne_of_lt (Nat.lt_of_lt_of_le hg hle))]
    exact hc.unused h (nextId_of_appended hstep ▸ hle)
  · intro h hseq' hlook l hl
    by_cases hh : h = g
    · subst hh
      have hL : 0 < L := Nat.zero_lt_of_lt hl
      rw [appendsOf_self]
      by_cases hown : l = layer
      · subst hown
        obtain ⟨seq', ha⟩ := hafter hL
        have hadd := funext fun kv => rowsOn_append_self (appendsOf h done) ⟨l, keys, values⟩ kv
        rw [hadd]
        refine ha.stores hlen hseq (hc.stored hseq l hl) fun kv => ?_
        have hbefore := hc.length hseq l hl kv
        have hown := hround hl
        rw [pending_own hL hlayer] at hown
        rw [ha.len]
        simp only [if_true] at hown ⊢
        omega
      · have hsame : rowsOn l (appendsOf h done ++ [⟨layer, keys, values⟩]) =
            rowsOn l (appendsOf h done) :=
          funext fun kv => rowsOn_append_ne _ (Ne.symm hown) kv
        rw [hsame]
        exact stores_of_appended hstep hc.toAccounted (Or.inr hown) (hc.stored hseq l hl)
    · rw [appendsOf_ne (Ne.symm hh)]
      rw [lookup_of_appended hstep hh] at hlook
      exact stores_of_appended hstep hc.toAccounted (Or.inl hh) (hc.stored hlook l hl)
  · intro h hseq' hlook l hl kv
    by_cases hh : h = g
    · subst hh
      obtain ⟨seq', ha⟩ := hafter (Nat.zero_lt_of_lt hl)
      cases ha.lookup.symm.trans hlook
      have hbefore := hc.length hseq l hl kv
      have hown := hround hl
      rw [appendsOf_self, length_rowsOn_append hlen, ha.len]
      simp only at hown ⊢
      omega
    · rw [appendsOf_ne (Ne.symm hh)]
      rw [lookup_of_appended hstep hh] at hlook
      exact hc.length hlook l hl kv

/-- **One call keeps the log true.** -/
theorem step {call : CacheCall R W F}
    (hsound : ∀ {b h layer keys values}, call = .append b h layer keys values → b.Sound)
    (hord : ∀ h, LayersInOrder L (appendsOf h (done ++ [call]))) (hok : call.run c = .ok () c') :
    Logged L (done ++ [call]) c' := by
  cases call with
  | alloc => exact hc.alloc hok
  | append b g layer keys values => exact hc.append (hsound rfl) (hord g) hok
  | free g => exact hc.free hok

/-- **A run keeps the log true**, by induction on its calls. -/
theorem run {calls : List (CacheCall R W F)}
    (hsound : ∀ {b h layer keys values}, .append b h layer keys values ∈ calls → b.Sound)
    (hord : ∀ h, LayersInOrder L (appendsOf h (done ++ calls)))
    (hok : runCalls calls c = .ok () c') :
    Logged L (done ++ calls) c' := by
  induction calls generalizing done c with
  | nil =>
    obtain ⟨-, rfl⟩ := pure_eq_ok.1 hok
    rwa [List.append_nil]
  | cons call calls ih =>
    obtain ⟨c₁, hcall, hrest⟩ := unit_bind_eq_ok.1 hok
    rw [List.append_cons] at hord ⊢
    refine ih (hc.step (fun h => hsound (by rw [← h]; exact List.mem_cons_self)) ?_ hcall)
      (fun hmem => hsound (List.mem_cons_of_mem _ hmem)) hord hrest
    intro h
    have hall := hord h
    rw [appendsOf_append] at hall
    exact layersInOrder_of_append hall

end Logged

/-- A run from a new cache of `L` layers in which no call fails and every
append goes through all layers in order with one row count. -/
structure WholeRun (L : ℕ) (calls : List (CacheCall R W F)) (c : PagedKvCacheManager R) : Prop where
  /-- The run starts from a new cache, whose blocks have a block's rows. -/
  reached : ∃ fresh numBlocks numKvHeads headDim c₀,
    (∀ {blockId l keys values}, fresh blockId l = .ok (keys, values) →
      keys.length = blockSize ∧ values.length = blockSize) ∧
    new fresh numBlocks L numKvHeads headDim = .ok c₀ ∧ runCalls calls c₀ = .ok () c
  sound : ∀ {b h layer keys values}, .append b h layer keys values ∈ calls → b.Sound
  ordered : ∀ h, LayersInOrder L (appendsOf h calls)
  whole : ∀ h, L ∣ (appendsOf h calls).length

section

variable {L : ℕ} {calls : List (CacheCall R W F)} {c : PagedKvCacheManager R}
  (hrun : WholeRun L calls c)
include hrun

theorem WholeRun.logged : Logged L calls c := by
  obtain ⟨fresh, numBlocks, numKvHeads, headDim, c₀, hfresh, hnew, hok⟩ := hrun.reached
  exact (Logged.of_new hfresh hnew).run hrun.sound hrun.ordered hok

variable {h : CacheHandle} {seq : SequenceBlocks} (hseq : c.sequences.lookup h = some seq)
include hseq

/-- What a whole run leaves a live sequence with, layer by layer. -/
theorem WholeRun.holds {l : ℕ} (hl : l < L) (kv : Kv) :
    (rowsOn l (appendsOf h calls) kv).length = seq.currentLen ∧
      Paging.Holds blockSize seq.blockTable (c.pool.layer kv l)
        (rowsOn l (appendsOf h calls) kv) := by
  have hlength := hrun.logged.length hseq l hl kv
  rw [pending_of_dvd (hrun.whole h), Nat.add_zero] at hlength
  obtain ⟨seq', hseq', hrows⟩ := hrun.logged.stored hseq l hl
  cases hseq.symm.trans hseq'
  exact ⟨hlength, hrows kv⟩

/-- **The paged cache holds exactly what was appended.** Token `t` of a
live sequence is, on every layer, the `t`-th row appended there, in block
`table[t / 16]` at offset `t % 16`; the table has one block or as many as
the tokens need; and what the kernel gathers through it depends on the
rows appended only, not on how they were split into appends. -/
theorem holds_rows_appended :
    seq.blockTable.length = max 1 ((seq.currentLen + (blockSize - 1)) / blockSize) ∧
    (∀ l < L, ∀ kv, (rowsOn l (appendsOf h calls) kv).length = seq.currentLen ∧
      ∀ t < seq.currentLen, ∃ row, (rowsOn l (appendsOf h calls) kv)[t]? = some row ∧
        Paging.read blockSize seq.blockTable (c.pool.layer kv l) t = some row) ∧
    ∀ {calls' : List (CacheCall R W F)} {c' : PagedKvCacheManager R} {h' : CacheHandle}
      {seq' : SequenceBlocks}, WholeRun L calls' c' → c'.sequences.lookup h' = some seq' →
      ∀ l < L, ∀ kv, rowsOn l (appendsOf h' calls') kv = rowsOn l (appendsOf h calls) kv →
        Paging.gather blockSize seq'.blockTable (c'.pool.layer kv l) seq'.currentLen =
          Paging.gather blockSize seq.blockTable (c.pool.layer kv l) seq.currentLen := by
  refine ⟨?_, ?_, ?_⟩
  · exact (hrun.logged.fits hseq).length_eq
  · intro l hl kv
    obtain ⟨hlength, hrows⟩ := hrun.holds hseq hl kv
    refine ⟨hlength, fun t ht => ?_⟩
    rw [← hlength] at ht
    exact ⟨_, List.getElem?_eq_getElem ht, hrows.read ht⟩
  · intro calls' c' h' seq' hrun' hseq' l hl kv hsame
    obtain ⟨hlength, hrows⟩ := hrun.holds hseq hl kv
    obtain ⟨hlength', hrows'⟩ := hrun'.holds hseq' hl kv
    rw [← hlength, ← hlength', hrows.gather_eq, hrows'.gather_eq, hsame]

end

/-- A prompt of fifteen tokens, then one of two that crosses into the second
block, each on two layers. -/
def crossingCalls : List (CacheCall ℕ ℕ ℕ) :=
  [.alloc, .append referenceBackend 0 0 (List.range 15) (List.range 15),
    .append referenceBackend 0 1 (List.range 15) (List.range 15),
    .append referenceBackend 0 0 [15, 16] [17, 18], .append referenceBackend 0 1 [15, 16] [19, 20]]

/-- An empty cache of two blocks and two layers. -/
def twoBlocks : PagedKvCacheManager ℕ where
  pool := {
    blocks := fun kv _ _ => kv.pick (List.replicate blockSize 0) (List.replicate blockSize 0)
    freeList := [0, 1], capacity := 2, numLayers := 2, numKvHeads := 1, headDim := 1 }
  sequences := ∅
  nextId := 0

theorem new_twoBlocks : PagedKvCacheManager.new zeroBlock 2 2 1 1 = .ok twoBlocks := rfl

theorem crossingCalls_whole :
    WholeRun 2 crossingCalls (state (runCalls crossingCalls twoBlocks)) where
  reached := ⟨zeroBlock, 2, 1, 1, twoBlocks, length_zeroBlock, rfl,
    eq_ok_of_isOk (by decide +kernel)⟩
  sound h := by
    simp only [crossingCalls, List.mem_cons, CacheCall.append.injEq, reduceCtorEq,
      List.not_mem_nil, or_false, false_or] at h
    rcases h with ⟨rfl, -⟩ | ⟨rfl, -⟩ | ⟨rfl, -⟩ | ⟨rfl, -⟩ <;>
      exact referenceBackend_reliable.toSound
  ordered h := by
    by_cases hh : 0 = h
    · subst hh
      rintro (_ | _ | _ | _ | i) a hi <;> cases hi <;>
        exact ⟨rfl, rfl, fun first hf => by cases hf; rfl⟩
    · have hnone : appendsOf h crossingCalls = [] := by simp [appendsOf, crossingCalls, hh]
      rw [hnone]
      rintro i a hi
      cases hi
  whole h := by
    by_cases hh : 0 = h
    · subst hh
      exact ⟨2, rfl⟩
    · have hnone : appendsOf h crossingCalls = [] := by simp [appendsOf, crossingCalls, hh]
      rw [hnone]
      exact ⟨0, rfl⟩

/-- The second value row of the second prompt, in the second block. -/
theorem holds_rows_appended_crossingCalls :
    (state (runCalls crossingCalls twoBlocks)).sequences.lookup 0 = some ⟨[0, 1], 1, 17⟩ ∧
      (rowsOn 1 (appendsOf 0 crossingCalls) .v).length = 17 ∧
      ∃ row, (rowsOn 1 (appendsOf 0 crossingCalls) .v)[16]? = some row ∧
        Paging.read blockSize [0, 1] ((state (runCalls crossingCalls twoBlocks)).pool.layer .v 1)
          16 = some row :=
  have hseq : (state (runCalls crossingCalls twoBlocks)).sequences.lookup 0 =
      some ⟨[0, 1], 1, 17⟩ := by decide +kernel
  have hrows := (holds_rows_appended crossingCalls_whole hseq).2.1 1 (by decide) .v
  ⟨hseq, hrows.1, hrows.2 16 (by decide)⟩

end PagedKvCacheManager

end Fracture
