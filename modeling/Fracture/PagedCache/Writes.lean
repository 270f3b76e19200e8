import Fracture.PagedCache.Model

/-!
# What the write loop does

The loop copies the new rows block by block. However it ends, it writes
to blocks of its table and to its own layer only (`writeRows_within`).
When it succeeds it has written all rows at their logical indices, so
its result is the page-table write of the rows on that layer's keys and
values (`writeRows_of_ok`), and on a reliable backend it does succeed
when the table has room (`writeRows_ok`).
-/

namespace Fracture

open Effect Rows

variable {R W F : Type}

namespace BlockPool

/-- The key or value blocks of one layer, as a store of pages. -/
def layer (p : BlockPool R) (kv : Kv) (l : ℕ) : ℕ → List R := fun blockId => p.blocks kv blockId l

/-- The pool after rows were written through a table on one layer. -/
def putRows (p : BlockPool R) (l : ℕ) (table : List ℕ) (start : ℕ) (rows : Kv → List R) :
    BlockPool R :=
  { p with
    blocks := fun kv blockId l' =>
      if l' = l then Paging.write blockSize table (p.layer kv l) start (rows kv) blockId
      else p.blocks kv blockId l' }

/-- Every block tensor of the pool has the rows of one block. -/
def Shaped (p : BlockPool R) : Prop :=
  ∀ kv, ∀ blockId < p.capacity, ∀ l < p.numLayers, (p.blocks kv blockId l).length = blockSize

/-- A table whose blocks are the pool's and are not named twice. -/
def Owns (p : BlockPool R) (table : List ℕ) : Prop :=
  table.Nodup ∧ ∀ blockId ∈ table, blockId < p.capacity

/-- A table of the pool's own blocks can be written on every layer. -/
theorem Owns.writable {p : BlockPool R} (h : p.Owns table) (hs : p.Shaped) (hl : l < p.numLayers)
    (kv : Kv) : Paging.Writable blockSize table (p.layer kv l) :=
  ⟨by decide, h.1, fun b hb => hs kv b (h.2 b hb) l hl⟩

/-- `p'` differs from `p` in the rows of the table's blocks on one layer only. -/
structure WritesOnly (table : List ℕ) (l : ℕ) (p p' : BlockPool R) : Prop where
  freeList : p'.freeList = p.freeList
  capacity : p'.capacity = p.capacity
  numLayers : p'.numLayers = p.numLayers
  frame : ∀ kv blockId l', blockId ∉ table ∨ l' ≠ l →
    p'.blocks kv blockId l' = p.blocks kv blockId l'

namespace WritesOnly

variable {table : List ℕ} {l : ℕ}

instance : Std.Refl (WritesOnly (R := R) table l) :=
  ⟨fun _ => ⟨rfl, rfl, rfl, fun _ _ _ _ => rfl⟩⟩

instance : IsTrans (BlockPool R) (WritesOnly table l) :=
  ⟨fun _ _ _ h h' => ⟨h'.freeList.trans h.freeList, h'.capacity.trans h.capacity,
    h'.numLayers.trans h.numLayers,
    fun kv b l' hbl => (h'.frame kv b l' hbl).trans (h.frame kv b l' hbl)⟩⟩

theorem copyInto (b : Backend R W F) (kv : Kv) (src : List R) {blockId : ℕ} (h : blockId ∈ table)
    (srcOff offset count : ℕ) :
    Within (WritesOnly table l) (copyInto b kv src blockId l srcOff offset count) := by
  intro p
  unfold BlockPool.copyInto
  split
  · refine ⟨rfl, rfl, rfl, ?_⟩
    intro kv' b' l' hbl
    have hne : ¬ (kv' = kv ∧ b' = blockId ∧ l' = l) := by
      rintro ⟨-, rfl, rfl⟩
      exact hbl.elim (fun hb => hb h) fun hl => hl rfl
    exact if_neg hne
  · exact refl_of _ p

end WritesOnly

end BlockPool

open BlockPool

variable {p : BlockPool R}

theorem BlockPool.tensor_eq_ok {kv : Kv} {blockId l : ℕ} {x : List R} :
    p.tensor kv blockId l = .ok x ↔
      (blockId < p.capacity ∧ l < p.numLayers) ∧ x = p.blocks kv blockId l := by
  unfold tensor
  by_cases h : blockId < p.capacity ∧ l < p.numLayers
  · simp [h, eq_comm]
  · simp [h]

/-- **However the write loop ends, it touches its table's blocks on its
layer only.** -/
theorem writeRows_within (b : Backend R W F) (layer startToken : ℕ) (table : List ℕ)
    (keys values : List R) (numNew written : ℕ) :
    Within (WritesOnly table layer)
      (writeRows b layer startToken table keys values numNew written) := by
  fun_induction writeRows with
  | case1 written hlt globalPos offsetInBlock ih =>
    refine Within.lift_bind fun blockId hid => ?_
    have hmem : blockId ∈ table := List.mem_of_getElem? (index_eq_ok.1 hid)
    refine (WritesOnly.copyInto b .k keys hmem _ _ _).bind fun _ => ?_
    exact (WritesOnly.copyInto b .v values hmem _ _ _).bind fun _ => ih
  | case2 => exact Within.pure ()

/-- Every block tensor of `p'` has the rows it had in `p`. -/
def SameLengths (p p' : BlockPool R) : Prop :=
  p'.capacity = p.capacity ∧ p'.numLayers = p.numLayers ∧
    ∀ kv blockId l, (p'.blocks kv blockId l).length = (p.blocks kv blockId l).length

instance : Std.Refl (SameLengths (R := R)) := ⟨fun _ => ⟨rfl, rfl, fun _ _ _ => rfl⟩⟩

instance : IsTrans (BlockPool R) SameLengths :=
  ⟨fun _ _ _ h h' => ⟨h'.1.trans h.1, h'.2.1.trans h.2.1,
    fun kv b l => (h'.2.2 kv b l).trans (h.2.2 kv b l)⟩⟩

theorem SameLengths.shaped {p' : BlockPool R} (h : SameLengths p p') (hs : p.Shaped) :
    p'.Shaped := by
  intro kv b hb l hl
  rw [h.2.2]
  exact hs kv b (h.1 ▸ hb) l (h.2.1 ▸ hl)

variable {b : Backend R W F}

theorem copyInto_sameLengths (hb : b.Sound) (kv : Kv) (src : List R)
    (blockId l srcOff offset count : ℕ) :
    Within SameLengths (copyInto b kv src blockId l srcOff offset count) := by
  intro p
  unfold copyInto
  split
  · next x hx =>
    obtain ⟨dst, hdst, hcopy⟩ := except_bind_eq_ok.1 hx
    obtain ⟨-, rfl⟩ := tensor_eq_ok.1 hdst
    obtain ⟨hsrc, hroom, rfl⟩ := hb.copyRows_eq hcopy
    refine ⟨rfl, rfl, ?_⟩
    intro kv' b' l'
    by_cases h : kv' = kv ∧ b' = blockId ∧ l' = l
    · obtain ⟨rfl, rfl, rfl⟩ := h
      simp only [state_ok, setTensor, and_self, if_true]
      exact length_overwrite (by rw [length_window hsrc]; exact hroom)
    · simp only [state_ok, setTensor, if_neg h]
  · exact refl_of _ p

/-- However the write loop ends, on a sound backend every block keeps its size. -/
theorem writeRows_sameLengths (hb : b.Sound) (layer startToken : ℕ) (table : List ℕ)
    (keys values : List R) (numNew written : ℕ) :
    Within SameLengths (writeRows b layer startToken table keys values numNew written) := by
  fun_induction writeRows with
  | case1 written hlt globalPos offsetInBlock ih =>
    exact Within.lift_bind fun blockId _ => (copyInto_sameLengths hb .k keys _ _ _ _ _).bind
      fun _ => (copyInto_sameLengths hb .v values _ _ _ _ _).bind fun _ => ih
  | case2 => exact Within.pure ()

/-! ## One block -/

namespace BlockPool

variable {p p' : BlockPool R} {table : List ℕ} {kv : Kv} {l blockId srcOff offset count t : ℕ}
  {b : Backend R W F}

theorem copyInto_of_ok (hb : b.Sound) {src : List R}
    (h : copyInto b kv src blockId l srcOff offset count p = .ok () p') :
    srcOff + count ≤ src.length ∧
      p' = p.setTensor kv blockId l
        (overwrite (p.blocks kv blockId l) offset (window src srcOff count)) := by
  unfold copyInto at h
  split at h
  · next x hx =>
    obtain ⟨dst, hdst, hcopy⟩ := except_bind_eq_ok.1 hx
    obtain ⟨-, rfl⟩ := tensor_eq_ok.1 hdst
    obtain ⟨hsrc, -, rfl⟩ := hb.copyRows_eq hcopy
    cases h
    exact ⟨hsrc, rfl⟩
  · cases h

theorem copyInto_ok (hb : b.Reliable) {src : List R} (hblock : blockId < p.capacity)
    (hlayer : l < p.numLayers) (hsrc : srcOff + count ≤ src.length)
    (hdst : offset + count ≤ (p.blocks kv blockId l).length) :
    copyInto b kv src blockId l srcOff offset count p = .ok () (p.setTensor kv blockId l
      (overwrite (p.blocks kv blockId l) offset (window src srcOff count))) := by
  have hread : p.tensor kv blockId l = .ok (p.blocks kv blockId l) :=
    tensor_eq_ok.2 ⟨⟨hblock, hlayer⟩, rfl⟩
  unfold copyInto
  rw [hread]
  simp only [bind, Except.bind, hb.copyRows_eq_ok hsrc hdst]

variable {rows : Kv → List R}

section

variable (hid : table[t / blockSize]? = some blockId)
  (hlen : ∀ kv, (p.blocks kv blockId l).length = blockSize)
include hid hlen

/-- Writing a block's keys and then its values is a page-table write. -/
theorem setTensor_setTensor_eq_putRows (hfit : ∀ kv, t % blockSize + (rows kv).length ≤ blockSize) :
    (p.setTensor .k blockId l (overwrite (p.blocks .k blockId l) (t % blockSize) (rows .k))).setTensor
        .v blockId l (overwrite (p.blocks .v blockId l) (t % blockSize) (rows .v)) =
      p.putRows l table t rows := by
  have hwrite : ∀ kv, Paging.write blockSize table (p.layer kv l) t (rows kv) =
      Function.update (p.layer kv l) blockId
        (overwrite (p.layer kv l blockId) (t % blockSize) (rows kv)) :=
    fun kv => Paging.write_eq_update (by decide) hid (hfit kv) (hlen kv)
  simp only [setTensor, putRows, hwrite, mk.injEq, and_true]
  funext kv b' l'
  cases kv <;> by_cases hb : b' = blockId <;> by_cases hl : l' = l <;> simp [hb, hl, layer]

/-- One turn of the write loop that succeeds: a window of the rows went
through the table. -/
theorem copyInto_copyInto_of_ok (hb : b.Sound) {p₁ : BlockPool R}
    (hfit : t % blockSize + count ≤ blockSize)
    (hk : copyInto b .k keys blockId l srcOff (t % blockSize) count p = .ok () p₁)
    (hv : copyInto b .v values blockId l srcOff (t % blockSize) count p₁ = .ok () p') :
    (∀ kv : Kv, srcOff + count ≤ (kv.pick keys values).length) ∧
      p' = p.putRows l table t fun kv => window (kv.pick keys values) srcOff count := by
  obtain ⟨hklen, rfl⟩ := copyInto_of_ok hb hk
  obtain ⟨hvlen, rfl⟩ := copyInto_of_ok hb hv
  have hbound : ∀ kv : Kv, srcOff + count ≤ (kv.pick keys values).length := by
    rintro ⟨⟩
    · exact hklen
    · exact hvlen
  refine ⟨hbound, ?_⟩
  rw [← setTensor_setTensor_eq_putRows hid hlen
    fun kv => by rw [length_window (hbound kv)]; exact hfit]
  simp [setTensor, Kv.pick]

/-- One turn of the write loop goes through on a reliable backend. -/
theorem copyInto_copyInto_ok (hb : b.Reliable) (hblock : blockId < p.capacity)
    (hlayer : l < p.numLayers) (hfit : t % blockSize + count ≤ blockSize)
    (hsrc : ∀ kv : Kv, srcOff + count ≤ (kv.pick keys values).length) :
    ∃ p₁, copyInto b .k keys blockId l srcOff (t % blockSize) count p = .ok () p₁ ∧
      copyInto b .v values blockId l srcOff (t % blockSize) count p₁ =
        .ok () (p.putRows l table t fun kv => window (kv.pick keys values) srcOff count) := by
  refine ⟨_, copyInto_ok hb hblock hlayer (hsrc .k) (by rw [hlen .k]; exact hfit), ?_⟩
  have hval : ∀ x, (p.setTensor .k blockId l x).blocks .v blockId l = p.blocks .v blockId l := by
    simp [setTensor]
  refine (copyInto_ok (p := p.setTensor .k blockId l _) hb hblock hlayer (hsrc .v)
    (by rw [hval, hlen .v]; exact hfit)).trans ?_
  rw [hval, ← setTensor_setTensor_eq_putRows hid hlen
    fun kv => by rw [length_window (hsrc kv)]; exact hfit]
  rfl

end

/-! ## Many blocks -/

section

variable (p) (l : ℕ) (table : List ℕ) (start : ℕ)

theorem putRows_nil (h : ∀ kv, rows kv = []) : p.putRows l table start rows = p := by
  have hsame : (fun kv blockId l' => if l' = l then p.layer kv l blockId else p.blocks kv blockId l') =
      p.blocks := by
    funext kv b l'
    by_cases hl : l' = l <;> simp [hl, layer]
  simp only [putRows, h, Paging.write, hsame]

variable (rows) (kv : Kv)

@[simp] theorem layer_putRows :
    (p.putRows l table start rows).layer kv l =
      Paging.write blockSize table (p.layer kv l) start (rows kv) := by
  funext b
  simp [putRows, layer]

/-- A write keeps the row count of every block tensor. -/
theorem length_blocks_putRows (blockId l' : ℕ) :
    ((p.putRows l table start rows).blocks kv blockId l').length =
      (p.blocks kv blockId l').length := by
  by_cases hl : l' = l
  · simp [putRows, hl, layer]
  · simp [putRows, hl]

end

/-- Two writes, one right behind the other, are one write. -/
theorem putRows_putRows {rows' : Kv → List R} {start n : ℕ} (h : ∀ kv, (rows kv).length = n) :
    (p.putRows l table start rows).putRows l table (start + n) rows' =
      p.putRows l table start fun kv => rows kv ++ rows' kv := by
  refine congrArg (fun bl => ({ p with blocks := bl } : BlockPool R)) ?_
  funext kv b l'
  by_cases hl : l' = l
  · simp only [hl, if_true, layer_putRows, Paging.write_append, h]
  · simp [putRows, hl]

end BlockPool

variable {l startToken numNew written : ℕ} {table : List ℕ} {keys values : List R}

/-- **A write loop that succeeds has written every row at its place.** -/
theorem writeRows_of_ok (hb : b.Sound) {p' : BlockPool R}
    (hshape : ∀ kv, ∀ blockId ∈ table, (p.blocks kv blockId l).length = blockSize)
    (h : writeRows b l startToken table keys values numNew written p = .ok () p') :
    p' = p.putRows l table (startToken + written)
      fun kv => window (kv.pick keys values) written (numNew - written) := by
  fun_induction writeRows b l startToken table keys values numNew written generalizing p with
  | case1 written hlt globalPos offsetInBlock =>
    rename_i ih
    obtain ⟨blockId, hid, h⟩ := lift_bind_eq_ok.1 h
    obtain ⟨p₁, hk, h⟩ := unit_bind_eq_ok.1 h
    obtain ⟨p₂, hv, h⟩ := unit_bind_eq_ok.1 h
    have hmod : globalPos % blockSize < blockSize := Nat.mod_lt _ (by decide)
    rw [index_eq_ok] at hid
    have hmem := List.mem_of_getElem? hid
    obtain ⟨hbound, rfl⟩ := copyInto_copyInto_of_ok hid
      (fun kv => hshape kv blockId hmem) hb (by omega) hk hv
    -- the remaining turns write behind this one's window
    have hrest := ih (fun kv blockId hid => by rw [length_blocks_putRows, hshape kv blockId hid]) h
    rw [hrest, ← Nat.add_assoc, putRows_putRows fun kv => length_window (hbound kv)]
    congr 1
    funext kv
    rw [← window_add]
    congr 1
    omega
  | case2 written hlt =>
    obtain ⟨-, rfl⟩ := pure_eq_ok.1 h
    rw [Nat.sub_eq_zero_of_le (Nat.not_lt.1 hlt)]
    exact (putRows_nil p l table _ fun kv => by simp [window]).symm

/-- **On a reliable backend the write loop goes through** when the table has room. -/
theorem writeRows_ok (hb : b.Reliable) (hs : p.Shaped)
    (htable : ∀ blockId ∈ table, blockId < p.capacity) (hl : l < p.numLayers)
    (hroom : startToken + numNew ≤ blockSize * table.length)
    (hlen : ∀ kv : Kv, (kv.pick keys values).length = numNew) :
    ∃ p', writeRows b l startToken table keys values numNew written p = .ok () p' := by
  fun_induction writeRows b l startToken table keys values numNew written generalizing p with
  | case1 written hlt globalPos offsetInBlock =>
    rename_i ih
    obtain ⟨blockId, hid, hmem⟩ := Paging.exists_page (show globalPos <
      blockSize * table.length by omega)
    have hmod : globalPos % blockSize < blockSize := Nat.mod_lt _ (by decide)
    obtain ⟨p₁, hk, hv⟩ := copyInto_copyInto_ok (p := p) (l := l) hid
      (fun kv => hs kv blockId (htable blockId hmem) l hl) hb (htable blockId hmem) hl
      (show _ + min (numNew - written) (blockSize - globalPos % blockSize) ≤ _ by omega)
      (fun kv => show written + _ ≤ _ by rw [hlen kv]; omega)
    obtain ⟨p', hrest⟩ := @ih (p.putRows l table globalPos _)
      (fun kv blockId hb l hl => by rw [length_blocks_putRows]; exact hs kv blockId hb l hl)
      htable hl
    exact ⟨p', lift_bind_eq_ok.2 ⟨blockId, index_eq_ok.2 hid, unit_bind_eq_ok.2
      ⟨p₁, hk, unit_bind_eq_ok.2 ⟨_, hv, hrest⟩⟩⟩⟩
  | case2 => exact ⟨p, rfl⟩

end Fracture
