import Fracture.TurboQuant.Model

/-!
# What the write loop of a quantized append does

A row copy into a block succeeds exactly where both tensors have rows of
one width (`exists_copyRows`, `copyRows_of_ok`), and so does the write
loop (`cols_of_writeRows`). Where the widths agree and the table has room
it lays the first rows of the scratch tensors behind the old length,
through the table, in each of the four tensors of a block
(`writeRows_ok`).
-/

namespace Fracture.TurboQuant

open Effect Rows

/-! ## Copying rows -/

namespace ByteTensor

/-- Rows, columns and element type. -/
def shape (t : ByteTensor) : ℕ × ℕ × DType := (t.rows, t.cols, t.dtype)

variable {u : ByteTensor}

theorem cols_of_shape {t : ByteTensor} (h : t.shape = u.shape) : t.cols = u.cols :=
  congrArg (fun s => s.2.1) h

@[simp] theorem length_toRows (t : ByteTensor) : t.toRows.length = t.rows :=
  length_rowsOf _ _ _

@[simp] theorem shape_store (t : ByteTensor) (bytes : List UInt8) :
    (t.store bytes).shape = t.shape := rfl

end ByteTensor

variable {src dst t : ByteTensor} {srcOffset dstOffset count : ℕ}

theorem exists_copyRows (hsrc : srcOffset + count ≤ src.rows) (hdst : dstOffset + count ≤ dst.rows)
    (hcols : src.cols = dst.cols) (hdtype : src.dtype = dst.dtype) :
    ∃ t, copyRows src dst srcOffset dstOffset count = .ok t := by
  rw [copyRows, dif_neg (Nat.not_lt.2 hsrc), dif_neg (Nat.not_lt.2 hdst),
    dif_neg (not_ne_iff.2 hcols), dif_neg (not_ne_iff.2 hdtype)]
  exact ⟨_, rfl⟩

/-- **A row copy that succeeded**: the tensors agree in the shape of a row,
and the rows are laid over those of the destination. -/
theorem copyRows_of_ok (h : copyRows src dst srcOffset dstOffset count = .ok t) :
    src.cols = dst.cols ∧ srcOffset + count ≤ src.rows ∧ t.shape = dst.shape ∧
      t.toRows = overwrite dst.toRows dstOffset (window src.toRows srcOffset count) := by
  unfold copyRows at h
  split at h
  case isTrue => cases h
  case isFalse hsrc =>
  split at h
  case isTrue => cases h
  case isFalse hdst =>
  split at h
  case isTrue => cases h
  case isFalse hcols =>
  split at h
  case isTrue => cases h
  case isFalse hdtype =>
  cases h
  have hcols := not_ne_iff.1 hcols
  have hdtype := not_ne_iff.1 hdtype
  have hsize : src.rowSize = dst.rowSize := by
    rw [ByteTensor.rowSize, ByteTensor.rowSize, hcols, hdtype]
  have hsrc : srcOffset + count ≤ src.rows := Nat.not_lt.1 hsrc
  have hread : srcOffset * src.rowSize + count * src.rowSize ≤ src.data.length := by
    rw [src.length_data, ← Nat.add_mul]
    exact Nat.mul_le_mul_right _ hsrc
  refine ⟨hcols, hsrc, rfl, ?_⟩
  have hrows := rowsOf_overwrite dst.length_data
    (by rw [length_window hread]; exact congrArg (count * ·) hsize) (Nat.not_lt.1 hdst)
  have hwindow := rowsOf_window (w := src.rowSize) hsrc src.data
  rw [ByteTensor.toRows, ByteTensor.toRows, ByteTensor.toRows, ← hwindow]
  simp only [ByteTensor.rowSize] at hsize hrows ⊢
  rw [hsize] at hrows ⊢
  exact hrows

/-! ## One block -/

namespace QuantizedBlockPool

/-- The rows of one of a layer's tensors, block by block. -/
def store (p : QuantizedBlockPool) (kv : Kv) (part : Part) (layer : ℕ) :
    ℕ → List (List UInt8) := fun blockId => (p.blocks kv part blockId layer).toRows

/-- `p'` differs from `p` in the contents of its tensors only. -/
structure SameBooks (p p' : QuantizedBlockPool) : Prop where
  books : p' = { p with blocks := p'.blocks }
  shape : ∀ kv part blockId layer,
    (p'.blocks kv part blockId layer).shape = (p.blocks kv part blockId layer).shape

instance : Std.Refl SameBooks := ⟨fun _ => ⟨rfl, fun _ _ _ _ => rfl⟩⟩

instance : IsTrans QuantizedBlockPool SameBooks :=
  ⟨fun _ _ _ h h' => ⟨by rw [h'.books, h.books],
    fun kv part b l => (h'.shape kv part b l).trans (h.shape kv part b l)⟩⟩

variable {kv : Kv} {part : Part}

theorem tensor_eq_ok {p : QuantizedBlockPool} {blockId layer : ℕ} :
    p.tensor kv part blockId layer = .ok t ↔
      (blockId < p.capacity ∧ layer < p.numLayers) ∧ t = p.blocks kv part blockId layer := by
  unfold tensor
  by_cases h : blockId < p.capacity ∧ layer < p.numLayers
  · simp [h, eq_comm]
  · simp [h]

theorem blocks_setTensor_self (p : QuantizedBlockPool) (kv : Kv) (part : Part)
    (blockId layer : ℕ) (t : ByteTensor) :
    (p.setTensor kv part blockId layer t).blocks kv part blockId layer = t := by
  simp [setTensor]

theorem blocks_setTensor_ne {p : QuantizedBlockPool} {kv' : Kv} {part' : Part}
    {blockId b layer l : ℕ} (h : ¬ (kv' = kv ∧ part' = part ∧ b = blockId ∧ l = layer)) :
    (p.setTensor kv part blockId layer t).blocks kv' part' b l = p.blocks kv' part' b l :=
  if_neg h

variable {copyError : Kv → Part → ℕ → Option FractureError} {scratch : Kv → Part → ByteTensor}
  {layer blockId : ℕ}

/-- What a copy into a block did, if it went through. -/
theorem copyInto_of_ok {p p' : QuantizedBlockPool}
    (h : copyInto copyError scratch kv part blockId layer srcOffset dstOffset count p = .ok () p') :
    ∃ t, p' = p.setTensor kv part blockId layer t ∧
      copyRows (scratch kv part) (p.blocks kv part blockId layer) srcOffset dstOffset count =
        .ok t := by
  unfold copyInto at h
  split at h
  case h_1 => cases h
  case h_2 t ht =>
    split at h
    · cases h
    · cases h
      obtain ⟨dst, hdst, hcopy⟩ := except_bind_eq_ok.1 ht
      obtain ⟨-, rfl⟩ := tensor_eq_ok.1 hdst
      exact ⟨t, rfl, hcopy⟩

/-- A copy into a block's tensor keeps the shape of every tensor, however
it ends. -/
theorem copyInto_within (copyError : Kv → Part → ℕ → Option FractureError)
    (scratch : Kv → Part → ByteTensor) (kv : Kv) (part : Part)
    (blockId layer srcOffset dstOffset count : ℕ) :
    Within SameBooks (copyInto copyError scratch kv part blockId layer srcOffset dstOffset count) := by
  intro p
  cases hcopy : copyInto copyError scratch kv part blockId layer srcOffset dstOffset count p with
  | error e p' =>
    have hsame : p' = p := by
      unfold copyInto at hcopy
      split at hcopy
      · cases hcopy
        rfl
      · split at hcopy <;> cases hcopy
        rfl
    rw [hsame]
    exact refl_of _ p
  | ok u p' =>
    obtain ⟨t, rfl, ht⟩ := copyInto_of_ok hcopy
    refine ⟨rfl, fun kv' part' b l => ?_⟩
    by_cases h : kv' = kv ∧ part' = part ∧ b = blockId ∧ l = layer
    · obtain ⟨rfl, rfl, rfl, rfl⟩ := h
      rw [state_ok, blocks_setTensor_self]
      exact (copyRows_of_ok ht).2.2.1
    · rw [state_ok, blocks_setTensor_ne h]

/-- Some of a block's tensors on a layer have rows laid over them. -/
structure Copied (layer blockId off : ℕ) (rows : Kv → Part → List (List UInt8))
    (done : Kv → Part → Prop) (p p' : QuantizedBlockPool) : Prop where
  same : SameBooks p p'
  written : ∀ kv part, done kv part → (p'.blocks kv part blockId layer).toRows =
    overwrite (p.blocks kv part blockId layer).toRows off (rows kv part)
  kept : ∀ kv part b l, ¬ (done kv part ∧ b = blockId ∧ l = layer) →
    (p'.blocks kv part b l).toRows = (p.blocks kv part b l).toRows

variable {off : ℕ}

theorem Copied.start {rows : Kv → Part → List (List UInt8)} (p : QuantizedBlockPool) :
    Copied layer blockId off rows (fun _ _ => False) p p where
  same := refl_of _ p
  written _ _ h := h.elim
  kept _ _ _ _ _ := rfl

variable {p₁ p₂ : QuantizedBlockPool}

section

variable {p : QuantizedBlockPool}
  (hcopy : copyInto copyError scratch kv part blockId layer srcOffset off count p₁ = .ok () p₂)
include hcopy

/-- **One more tensor copied.** -/
theorem Copied.copyInto {done : Kv → Part → Prop}
    (h : Copied layer blockId off (fun kv part => window (scratch kv part).toRows srcOffset count)
      done p p₁) (hnew : ¬ done kv part) :
    Copied layer blockId off (fun kv part => window (scratch kv part).toRows srcOffset count)
      (fun kv' part' => done kv' part' ∨ kv' = kv ∧ part' = part) p p₂ := by
  have hsame := copyInto_within copyError scratch kv part blockId layer srcOffset off count p₁
  rw [hcopy, state_ok] at hsame
  obtain ⟨t, rfl, ht⟩ := copyInto_of_ok hcopy
  obtain ⟨-, -, -, hrows⟩ := copyRows_of_ok ht
  have hbefore := h.kept kv part blockId layer fun hdone => hnew hdone.1
  refine ⟨trans_of _ h.same hsame, ?_, ?_⟩
  · rintro kv' part' (hdone | ⟨rfl, rfl⟩)
    · have hne : ¬ (kv' = kv ∧ part' = part ∧ blockId = blockId ∧ layer = layer) := by
        rintro ⟨rfl, rfl, -, -⟩
        exact hnew hdone
      rw [blocks_setTensor_ne hne, h.written kv' part' hdone]
    · rw [blocks_setTensor_self, hrows, hbefore]
  · intro kv' part' b l hout
    have hne : ¬ (kv' = kv ∧ part' = part ∧ b = blockId ∧ l = layer) := by
      rintro ⟨rfl, rfl, rfl, rfl⟩
      exact hout ⟨.inr ⟨rfl, rfl⟩, rfl, rfl⟩
    rw [blocks_setTensor_ne hne]
    exact h.kept kv' part' b l fun hin => hout ⟨.inl hin.1, hin.2⟩

/-- A copy that went through was between tensors of one width. -/
theorem cols_of_copyInto (hsame : SameBooks p p₁) :
    (scratch kv part).cols = (p.blocks kv part blockId layer).cols ∧ SameBooks p p₂ := by
  have hwithin := copyInto_within copyError scratch kv part blockId layer srcOffset off count p₁
  rw [hcopy, state_ok] at hwithin
  obtain ⟨t, -, ht⟩ := copyInto_of_ok hcopy
  exact ⟨(copyRows_of_ok ht).1.trans (ByteTensor.cols_of_shape (hsame.shape ..)),
    trans_of _ hsame hwithin⟩

end

/-- A copy goes through where the widths agree and there is room. -/
theorem copyInto_ok {p : QuantizedBlockPool} (hblock : blockId < p.capacity)
    (hlayer : layer < p.numLayers) (hsrc : srcOffset + count ≤ (scratch kv part).rows)
    (hdst : dstOffset + count ≤ (p.blocks kv part blockId layer).rows)
    (hcols : (scratch kv part).cols = (p.blocks kv part blockId layer).cols)
    (hdtype : (scratch kv part).dtype = (p.blocks kv part blockId layer).dtype)
    (hworks : copyError kv part srcOffset = none) :
    ∃ p', copyInto copyError scratch kv part blockId layer srcOffset dstOffset count p = .ok () p' := by
  obtain ⟨t, ht⟩ := exists_copyRows hsrc hdst hcols hdtype
  have hread : p.tensor kv part blockId layer = .ok (p.blocks kv part blockId layer) :=
    tensor_eq_ok.2 ⟨⟨hblock, hlayer⟩, rfl⟩
  refine ⟨p.setTensor kv part blockId layer t, ?_⟩
  unfold copyInto
  rw [hread, except_ok_bind, ht]
  dsimp only
  rw [hworks]

/-! ## Many blocks -/

/-- Rows have been written through a table on one layer. -/
structure Wrote (layer : ℕ) (table : List ℕ) (start : ℕ) (rows : Kv → Part → List (List UInt8))
    (p p' : QuantizedBlockPool) : Prop where
  same : SameBooks p p'
  written : ∀ kv part, p'.store kv part layer =
    Paging.write blockSize table (p.store kv part layer) start (rows kv part)

namespace Wrote

variable {table : List ℕ} {start n : ℕ} {rows rows' : Kv → Part → List (List UInt8)}
  {p p₁ p' : QuantizedBlockPool}

theorem nil (h : ∀ kv part, rows kv part = []) : Wrote layer table start rows p p where
  same := refl_of _ p
  written kv part := by rw [h]; rfl

/-- Two writes, one right behind the other, are one write. -/
theorem append (h : Wrote layer table start rows p p₁)
    (hlen : ∀ kv part, (rows kv part).length = n)
    (h' : Wrote layer table (start + n) rows' p₁ p') :
    Wrote layer table start (fun kv part => rows kv part ++ rows' kv part) p p' where
  same := trans_of _ h.same h'.same
  written kv part := by
    rw [h'.written, h.written, Paging.write_append, hlen]

/-- The four copies of a turn are a write through the table. -/
theorem of_copied {t : ℕ} (hid : table[t / blockSize]? = some blockId)
    (hrows : ∀ kv part, (p.blocks kv part blockId layer).rows = blockSize)
    (hfit : ∀ kv part, t % blockSize + (rows kv part).length ≤ blockSize)
    {done : Kv → Part → Prop} (hdone : ∀ kv part, done kv part)
    (h : Copied layer blockId (t % blockSize) rows done p p') :
    Wrote layer table t rows p p' where
  same := h.same
  written kv part := by
    have hlen : (p.store kv part layer blockId).length = blockSize := by
      rw [store, ByteTensor.length_toRows, hrows]
    rw [Paging.write_eq_update (by decide) hid (hfit kv part) hlen]
    funext b
    by_cases hb : b = blockId
    · subst hb
      rw [Function.update_self]
      exact h.written kv part (hdone kv part)
    · rw [Function.update_of_ne hb]
      exact h.kept kv part b layer fun hin => hb hin.2.1

end Wrote

end QuantizedBlockPool

open QuantizedBlockPool

variable {copyError : Kv → Part → ℕ → Option FractureError} {scratch : Kv → Part → ByteTensor}
  {layer startToken numNew written : ℕ} {table : List ℕ} {p p' : QuantizedBlockPool}

/-- However the write loop ends, every tensor keeps its shape. -/
theorem writeRows_within (copyError : Kv → Part → ℕ → Option FractureError)
    (scratch : Kv → Part → ByteTensor) (layer startToken : ℕ)
    (table : List ℕ) (numNew written : ℕ) :
    Within SameBooks (writeRows copyError scratch layer startToken table numNew written) := by
  fun_induction writeRows with
  | case1 written hlt copy globalPos offsetInBlock ih =>
    refine Within.lift_bind fun blockId _ => ?_
    refine (copyInto_within copyError scratch _ _ _ _ _ _ _).bind fun _ => ?_
    refine (copyInto_within copyError scratch _ _ _ _ _ _ _).bind fun _ => ?_
    refine (copyInto_within copyError scratch _ _ _ _ _ _ _).bind fun _ => ?_
    exact (copyInto_within copyError scratch _ _ _ _ _ _ _).bind fun _ => ih
  | case2 => exact Within.pure ()

/-- A write loop that went through had rows of the blocks' width, if it had
any. -/
theorem cols_of_writeRows (hlt : written < numNew)
    (h : writeRows copyError scratch layer startToken table numNew written p = .ok () p') :
    ∃ blockId, ∀ kv part, (scratch kv part).cols = (p.blocks kv part blockId layer).cols := by
  rw [writeRows, if_pos hlt] at h
  obtain ⟨blockId, -, h⟩ := lift_bind_eq_ok.1 h
  obtain ⟨p₁, h₁, h⟩ := unit_bind_eq_ok.1 h
  obtain ⟨p₂, h₂, h⟩ := unit_bind_eq_ok.1 h
  obtain ⟨p₃, h₃, h⟩ := unit_bind_eq_ok.1 h
  obtain ⟨p₄, h₄, -⟩ := unit_bind_eq_ok.1 h
  obtain ⟨hk, s₁⟩ := cols_of_copyInto h₁ (refl_of _ p)
  obtain ⟨hkn, s₂⟩ := cols_of_copyInto h₂ s₁
  obtain ⟨hv, s₃⟩ := cols_of_copyInto h₃ s₂
  obtain ⟨hvn, -⟩ := cols_of_copyInto h₄ s₃
  refine ⟨blockId, ?_⟩
  rintro (_ | _) (_ | _)
  · exact hk
  · exact hkn
  · exact hv
  · exact hvn

/-- **The write loop** lays the rows down one behind the other, where the
widths agree and the table has room. -/
theorem writeRows_ok (hworks : ∀ kv part i, copyError kv part i = none)
    (hscratch : ∀ kv part, numNew ≤ (scratch kv part).rows)
    (hshape : ∀ kv part, ∀ blockId ∈ table, (p.blocks kv part blockId layer).shape =
      (blockSize, (scratch kv part).cols, (scratch kv part).dtype))
    (htable : ∀ blockId ∈ table, blockId < p.capacity) (hlayer : layer < p.numLayers)
    (hroom : startToken + numNew ≤ blockSize * table.length) :
    ∃ p', writeRows copyError scratch layer startToken table numNew written p = .ok () p' ∧
      Wrote layer table (startToken + written)
        (fun kv part => window (scratch kv part).toRows written (numNew - written)) p p' := by
  fun_induction writeRows copyError scratch layer startToken table numNew written generalizing p with
  | case1 written hlt copy globalPos offsetInBlock =>
    rename_i ih
    obtain ⟨blockId, hid, hmem⟩ := Paging.exists_page (show globalPos <
      blockSize * table.length by omega)
    have hmod : globalPos % blockSize < blockSize := Nat.mod_lt _ (by decide)
    generalize htw : min (numNew - written) (blockSize - offsetInBlock) = toWrite at *
    -- each copy goes through on any pool with these books
    have hcopy : ∀ {p₁} kv part, SameBooks p p₁ → ∃ p₂, copyInto copyError scratch kv part blockId layer
        written offsetInBlock toWrite p₁ = .ok () p₂ := by
      intro p₁ kv part hsame
      have hnew := (hsame.shape kv part blockId layer).trans (hshape kv part blockId hmem)
      have hblock : (p₁.blocks kv part blockId layer).rows = blockSize := congrArg Prod.fst hnew
      have hbooks := hsame.books
      have hrows := hscratch kv part
      exact copyInto_ok (by rw [hbooks]; exact htable blockId hmem) (by rw [hbooks]; exact hlayer)
        (by omega) (by rw [hblock]; omega) (congrArg (fun s => s.2.1) hnew).symm
        (congrArg (fun s => s.2.2) hnew).symm (hworks kv part written)
    obtain ⟨p₁, h₁⟩ := hcopy .k .packedIndices (refl_of _ p)
    have c₁ := (Copied.start p).copyInto h₁ (by simp)
    obtain ⟨p₂, h₂⟩ := hcopy .k .norms c₁.same
    have c₂ := c₁.copyInto h₂ (by simp)
    obtain ⟨p₃, h₃⟩ := hcopy .v .packedIndices c₂.same
    have c₃ := c₂.copyInto h₃ (by simp)
    obtain ⟨p₄, h₄⟩ := hcopy .v .norms c₃.same
    have c₄ := c₃.copyInto h₄ (by simp)
    have hbooks := c₄.same.books
    -- the remaining turns write behind this one's rows
    obtain ⟨p', hrest, hwrote⟩ := @ih p₄
      (fun kv part b hb => (c₄.same.shape kv part b layer).trans (hshape kv part b hb))
      (by rw [hbooks]; exact htable) (by rw [hbooks]; exact hlayer)
    refine ⟨p', lift_bind_eq_ok.2 ⟨blockId, index_eq_ok.2 hid, unit_bind_eq_ok.2
      ⟨p₁, h₁, unit_bind_eq_ok.2 ⟨p₂, h₂, unit_bind_eq_ok.2 ⟨p₃, h₃, unit_bind_eq_ok.2
        ⟨p₄, h₄, hrest⟩⟩⟩⟩⟩, ?_⟩
    have hlen : ∀ kv part, (window (scratch kv part).toRows written toWrite).length = toWrite := by
      intro kv part
      have hrows := hscratch kv part
      exact length_window (by rw [ByteTensor.length_toRows]; omega)
    have hturn := Wrote.of_copied hid
      (fun kv part => congrArg Prod.fst (hshape kv part blockId hmem))
      (fun kv part => by rw [hlen]; omega) (by rintro (_ | _) (_ | _) <;> simp) c₄
    rw [← Nat.add_assoc] at hwrote
    have hboth := hturn.append hlen hwrote
    have hsplit : toWrite + (numNew - (written + toWrite)) = numNew - written := by omega
    simp only [← window_add, hsplit] at hboth
    exact hboth
  | case2 written hlt =>
    refine ⟨p, rfl, Wrote.nil fun kv part => ?_⟩
    rw [Nat.sub_eq_zero_of_le (Nat.not_lt.1 hlt), window, List.take_zero]

end Fracture.TurboQuant
