import Fracture.Gguf.Parser

/-!
# The numbers of a configuration

The configuration's numbers are read from entries of any integer type
through a cast to 32 bits, and the size of a head is a quotient. Neither
is exact: an entry out of range is wrapped around, one of a type the cast
does not know leaves the default in its place, and the heads together may
be narrower than the tensors that are viewed by heads.
-/

namespace Fracture.Gguf

open Effect

variable {F : Type}

/-! ## Entries -/

/-- The number that an entry of an integer type stores. -/
def MetadataValue.integer : MetadataValue → Option ℤ
  | .uint8 v => some v.toNat
  | .int8 v => some v.toInt
  | .uint16 v => some v.toNat
  | .int16 v => some v.toInt
  | .uint32 v => some v.toNat
  | .int32 v => some v.toInt
  | .uint64 v => some v.toNat
  | .int64 v => some v.toInt
  | _ => none

/-- **The cast keeps a number exactly if it fits.** -/
theorem MetadataValue.toNat_eq_iff {v : MetadataValue} {n : UInt32} {z : ℤ}
    (hn : v.asU32 = some n) (hz : v.integer = some z) :
    (n.toNat : ℤ) = z ↔ 0 ≤ z ∧ z < 2 ^ 32 := by
  have hlt := n.toNat_lt
  cases v with
  | uint8 v =>
    cases hn
    cases hz
    have hv := v.toNat_lt
    have hcast : v.toUInt32.toNat = v.toNat := UInt8.toNat_toUInt32 v
    omega
  | uint16 v =>
    cases hn
    cases hz
    have hv := v.toNat_lt
    have hcast : v.toUInt32.toNat = v.toNat := UInt16.toNat_toUInt32 v
    omega
  | uint32 v =>
    cases hn
    cases hz
    omega
  | uint64 v =>
    cases hn
    cases hz
    have hcast : v.toUInt32.toNat = v.toNat % 2 ^ 32 := UInt64.toNat_toUInt32 v
    omega
  | int32 v =>
    cases hn
    cases hz
    have hcast : v.toInt = v.toUInt32.toBitVec.toInt := rfl
    rw [hcast, BitVec.toInt_eq_toNat_cond]
    have hbits : v.toUInt32.toBitVec.toNat = v.toUInt32.toNat := rfl
    split <;> omega
  | _ => cases hn

/-- A number of the configuration that is read from an entry, and what it is
where there is none to read. -/
structure Reading where
  key : String
  default : Option ℕ
  value : ℕ

namespace Reading

variable {metadata : Metadata} {r : Reading}

/-- The number is the one the entry stores, whatever its type. -/
def Exact (metadata : Metadata) (r : Reading) : Prop :=
  ∀ v z, metadata.lookup r.key = some v → v.integer = some z → (r.value : ℤ) = z

/-- What the entry stores fits into 32 bits if the cast knows its type, and
is what an entry that is not there would mean otherwise. -/
def Storable (metadata : Metadata) (r : Reading) : Prop :=
  ∀ v z, metadata.lookup r.key = some v → v.integer = some z →
    (v.asU32.isSome → 0 ≤ z ∧ z < 2 ^ 32) ∧ (v.asU32 = none → ∃ d ∈ r.default, (d : ℤ) = z)

/-- How the number comes about. -/
def Read (metadata : Metadata) (r : Reading) : Prop :=
  (∃ v n, metadata.lookup r.key = some v ∧ v.asU32 = some n ∧ r.value = n.toNat) ∨
    (metadata.lookup r.key).bind MetadataValue.asU32 = none ∧ r.default = some r.value

theorem Read.exact_iff (h : r.Read metadata) : r.Exact metadata ↔ r.Storable metadata := by
  refine forall₄_congr fun v z hv hz => ?_
  rcases h with ⟨v', n, hv', hn, hvalue⟩ | ⟨hnone, hdefault⟩
  · cases hv.symm.trans hv'
    rw [hvalue, MetadataValue.toNat_eq_iff hn hz]
    simp [hn]
  · rw [hv, Option.bind_some] at hnone
    simp [hnone, hdefault]

end Reading

/-- The name of the architecture that the keys start with. -/
def archOf (metadata : Metadata) : String :=
  ((metadata.lookup "general.architecture").bind MetadataValue.asStr).getD "llama"

/-- The numbers read from entries: those of the configuration, and the
alignment. -/
def ModelConfig.readings (c : ModelConfig F) (metadata : Metadata) : List Reading :=
  let arch := archOf metadata
  [⟨s!"{arch}.embedding_length", none, c.hiddenSize⟩,
    ⟨s!"{arch}.block_count", none, c.numLayers⟩,
    ⟨s!"{arch}.attention.head_count", none, c.numQHeads⟩,
    ⟨s!"{arch}.attention.head_count_kv", none, c.numKvHeads⟩,
    ⟨s!"{arch}.feed_forward_length", none, c.intermediateSize⟩,
    ⟨s!"{arch}.context_length", some 8192, c.maxSeqLen⟩,
    ⟨"general.alignment", some 32, getAlignment metadata⟩] ++
  -- the number of tokens goes first
  if ((metadata.lookup "tokenizer.ggml.tokens").bind MetadataValue.arrayLen).isSome then []
  else [⟨s!"{arch}.vocab_size", none, c.vocabSize⟩]

section

variable {metadata : Metadata} {key : String} {n : ℕ}

theorem read_of_asU32 {default : Option ℕ} {v : UInt32}
    (h : (metadata.lookup key).bind MetadataValue.asU32 = some v) :
    Reading.Read metadata ⟨key, default, v.toNat⟩ := by
  obtain ⟨value, hvalue, hv⟩ := Option.bind_eq_some_iff.1 h
  exact .inl ⟨value, v, hvalue, hv, rfl⟩

theorem read_of_getU32 (h : getU32 metadata key = .ok n) :
    Reading.Read metadata ⟨key, none, n⟩ := by
  unfold getU32 at h
  split at h
  · next v hv =>
    cases h
    exact read_of_asU32 hv
  · cases h

theorem read_getD (metadata : Metadata) (key : String) (default : ℕ) :
    Reading.Read metadata ⟨key, some default,
      (((metadata.lookup key).bind MetadataValue.asU32).map UInt32.toNat).getD default⟩ := by
  cases h : (metadata.lookup key).bind MetadataValue.asU32 with
  | none => exact .inr ⟨h, rfl⟩
  | some v => exact read_of_asU32 h

end

/-- Every number comes from its entry or is the default. -/
theorem read_of_extractModelConfig {f64 : F64 F} {metadata : Metadata} {c : ModelConfig F}
    (h : extractModelConfig f64 metadata = .ok c) :
    ∀ r ∈ c.readings metadata, r.Read metadata := by
  obtain ⟨hiddenSize, hhidden, h⟩ := except_bind_eq_ok.1 h
  obtain ⟨numLayers, hlayers, h⟩ := except_bind_eq_ok.1 h
  obtain ⟨numQHeads, hheads, h⟩ := except_bind_eq_ok.1 h
  obtain ⟨numKvHeads, hkv, h⟩ := except_bind_eq_ok.1 h
  obtain ⟨intermediateSize, hffn, h⟩ := except_bind_eq_ok.1 h
  obtain ⟨vocabSize, hvocab, h⟩ := except_bind_eq_ok.1 h
  obtain ⟨-, h⟩ := except_guard_eq_ok.1 h
  obtain ⟨-, -, h⟩ := except_bind_eq_ok.1 h
  cases h
  simp only [ModelConfig.readings, List.forall_mem_append, List.forall_mem_cons]
  refine ⟨⟨read_of_getU32 hhidden, read_of_getU32 hlayers, read_of_getU32 hheads,
    read_of_getU32 hkv, read_of_getU32 hffn, read_getD .., read_getD .., nofun⟩, ?_⟩
  unfold getVocabSize at hvocab
  split at hvocab
  · next n htokens => simp [htokens]
  · next htokens =>
    split at hvocab
    · next v hv =>
      cases hvocab
      simp only [htokens, Option.isSome_none, Bool.false_eq_true, if_false, List.forall_mem_singleton]
      exact read_of_asU32 hv
    · cases hvocab

/-- **A configuration has the numbers its entries store** exactly if every
entry that is read can be read. -/
theorem readings_exact_iff (f64 : F64 F) {metadata : Metadata} {c : ModelConfig F}
    (h : extractModelConfig f64 metadata = .ok c) :
    (∀ r ∈ c.readings metadata, r.Exact metadata) ↔
      ∀ r ∈ c.readings metadata, r.Storable metadata :=
  forall₂_congr fun r hr => (read_of_extractModelConfig h r hr).exact_iff

/-- A file whose entries are not of the expected types. -/
def misfits : Metadata :=
  insertAll [("llama.embedding_length", .uint32 4), ("llama.block_count", .int32 (-1)),
    ("llama.attention.head_count", .uint8 1), ("llama.attention.head_count_kv", .uint16 1),
    ("llama.feed_forward_length", .uint32 8), ("llama.vocab_size", .uint32 2),
    ("llama.context_length", .uint64 4294967297), ("general.alignment", .int64 64)]

/-- A negative number of layers becomes a large one, a context too long for
32 bits becomes one token long, and an alignment of 64 becomes 32. -/
theorem misfits_wrapped :
    (extractModelConfig F64.exact misfits).toOption.map (fun c => (c.numLayers, c.maxSeqLen)) =
        some (4294967295, 1) ∧
      getAlignment misfits = 32 := by
  decide +kernel

theorem readings_exact_iff_misfits :
    ∃ c, extractModelConfig F64.exact misfits = .ok c ∧
      ((∀ r ∈ c.readings misfits, r.Exact misfits) ↔
        ∀ r ∈ c.readings misfits, r.Storable misfits) := by
  have hok : (extractModelConfig F64.exact misfits).isOk = true := by decide +kernel
  obtain ⟨c, hc⟩ := except_ok_of_isOk hok
  exact ⟨c, hc, readings_exact_iff F64.exact hc⟩

/-! ## Heads -/

/-- The tensors a forward pass views by heads (queries, keys, values and the
output of the attention), with the shape they have and that of the view. -/
def ModelConfig.views (c : ModelConfig F) (totalTokens : ℕ) : List (List ℕ × List ℕ) :=
  let queries := ([totalTokens, c.hiddenSize], [totalTokens, c.numQHeads, c.headDim])
  let keys := ([totalTokens, c.numKvHeads * c.headDim], [totalTokens, c.numKvHeads, c.headDim])
  [queries, keys, keys, queries]

/-- The element that a row of a tensor starts at. -/
def rowStart (shape : List ℕ) (row : ℕ) : ℕ := row * shape.tail.prod

/-- A view has as many elements as the tensor and its rows. -/
def SameRows (p : List ℕ × List ℕ) : Prop :=
  p.1.prod = p.2.prod ∧ ∀ row, rowStart p.1 row = rowStart p.2 row

theorem headDim_of_validate {f64 : F64 F} {c : ModelConfig F} (h : c.validate f64 = .ok ()) :
    c.headDim = c.hiddenSize / c.numQHeads := by
  obtain ⟨-, h⟩ := except_guard_eq_ok.1 h
  obtain ⟨-, h⟩ := except_guard_eq_ok.1 h
  obtain ⟨-, h⟩ := except_guard_eq_ok.1 h
  obtain ⟨-, h⟩ := except_guard_eq_ok.1 h
  obtain ⟨-, h⟩ := except_guard_eq_ok.1 h
  obtain ⟨hdim, -⟩ := except_guard_eq_ok.1 h
  exact not_ne_iff.1 hdim

/-- **The heads fill the hidden state**, and views by heads have the rows of
the tensors they view, exactly if the heads divide it evenly. -/
theorem views_match_iff (f64 : F64 F) {c : ModelConfig F} (h : c.validate f64 = .ok ()) :
    (c.numQHeads * c.headDim = c.hiddenSize ∧
        ∀ totalTokens, ∀ p ∈ c.views totalTokens, SameRows p) ↔
      c.numQHeads ∣ c.hiddenSize := by
  constructor
  · rintro ⟨hwidth, -⟩
    exact ⟨c.headDim, hwidth.symm⟩
  · intro hdvd
    have hwidth : c.numQHeads * c.headDim = c.hiddenSize := by
      rw [headDim_of_validate h, Nat.mul_div_cancel' hdvd]
    refine ⟨hwidth, fun totalTokens => ?_⟩
    simp [ModelConfig.views, SameRows, rowStart, hwidth]

/-- Five columns for two heads. -/
def unevenHeads : ModelConfig ℚ := ⟨5, 1, 2, 1, 2, 8, 2, 10000, 1 / 1000, 16⟩

/-- One column in five belongs to no head, and the second row of the view is
not the second row of the tensor. -/
theorem unevenHeads_views :
    unevenHeads.validate F64.exact = .ok () ∧
      unevenHeads.numQHeads * unevenHeads.headDim = 4 ∧ unevenHeads.hiddenSize = 5 ∧
      ∃ p ∈ unevenHeads.views 3, p.1.prod = 15 ∧ p.2.prod = 12 ∧
        rowStart p.1 1 = 5 ∧ rowStart p.2 1 = 4 := by
  refine ⟨by decide +kernel, rfl, rfl, _, List.mem_cons_self, ?_⟩
  decide

theorem views_match_iff_unevenHeads :
    unevenHeads.validate F64.exact = .ok () ∧
      ((unevenHeads.numQHeads * unevenHeads.headDim = unevenHeads.hiddenSize ∧
          ∀ totalTokens, ∀ p ∈ unevenHeads.views totalTokens, SameRows p) ↔
        unevenHeads.numQHeads ∣ unevenHeads.hiddenSize) :=
  have hvalid : unevenHeads.validate F64.exact = .ok () := by decide +kernel
  ⟨hvalid, views_match_iff F64.exact hvalid⟩

end Fracture.Gguf
