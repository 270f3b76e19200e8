import Fracture.Gguf.RoundTrip
import Mathlib.Order.Bounds.Basic

/-!
# Where the tensor data starts

The data of the tensors starts at the end of the tables, rounded up to the
alignment. The parser rounds with a bit mask, which is rounding to a
multiple when the alignment is a power of two and at no other alignment
(`aligned_iff_isPowerOfTwo`).
-/

namespace Fracture.Gguf

/-! ## Rounding with a mask -/

/-- The bits outside a mask and those in it make up the word. -/
theorem mask_partition (x mask : UInt64) :
    (x &&& ~~~mask).toNat + (x &&& mask).toNat = x.toNat := by
  have hdisjoint : (x.toBitVec &&& ~~~mask.toBitVec) &&& (x.toBitVec &&& mask.toBitVec) = 0 := by
    ext i
    simp only [BitVec.getElem_and, BitVec.getElem_not]
    cases x.toBitVec[i] <;> cases mask.toBitVec[i] <;> simp
  have hjoin : (x.toBitVec &&& ~~~mask.toBitVec) ||| (x.toBitVec &&& mask.toBitVec) =
      x.toBitVec := by
    ext i
    simp only [BitVec.getElem_or, BitVec.getElem_and, BitVec.getElem_not]
    cases x.toBitVec[i] <;> cases mask.toBitVec[i] <;> rfl
  have hsum := BitVec.toNat_add_of_and_eq_zero hdisjoint
  rw [BitVec.add_eq_or_of_and_eq_zero _ _ hdisjoint, hjoin] at hsum
  exact hsum.symm

/-- What is rounded has no bit of the mask. -/
theorem mask_cleared (x mask : UInt64) : (x &&& ~~~mask).toNat &&& mask.toNat = 0 := by
  have hzero : (x &&& ~~~mask) &&& mask = 0 := by
    apply UInt64.toBitVec_inj.1
    ext i
    simp
  rw [← UInt64.toNat_and, hzero]
  rfl

variable {offset alignment : ℕ}

/-- Rounding up to a power of two. -/
theorem alignOffset_two_pow {k : ℕ} (hfits : offset + (2 ^ k - 1) < 2 ^ 64) :
    alignOffset offset (2 ^ k) + (offset + (2 ^ k - 1)) % 2 ^ k = offset + (2 ^ k - 1) := by
  have hpos : 2 ^ k ≠ 0 := (Nat.two_pow_pos k).ne'
  have hsum : saturatingAdd offset (2 ^ k - 1) = offset + (2 ^ k - 1) :=
    Nat.min_eq_left (Nat.le_sub_one_of_lt hfits)
  have hx : (UInt64.ofNat (offset + (2 ^ k - 1))).toNat = offset + (2 ^ k - 1) :=
    UInt64.toNat_ofNat_of_lt' hfits
  have hmask : (UInt64.ofNat (2 ^ k - 1)).toNat = 2 ^ k - 1 :=
    UInt64.toNat_ofNat_of_lt' (Nat.lt_of_le_of_lt (Nat.le_add_left _ _) hfits)
  have hparts := mask_partition (UInt64.ofNat (offset + (2 ^ k - 1))) (UInt64.ofNat (2 ^ k - 1))
  rw [UInt64.toNat_and (UInt64.ofNat (offset + (2 ^ k - 1))) (UInt64.ofNat (2 ^ k - 1)), hx, hmask,
    Nat.and_two_pow_sub_one_eq_mod] at hparts
  rw [alignOffset, if_neg hpos, hsum]
  exact hparts

/-- **A power of two rounds to the least multiple.** -/
theorem isLeast_alignOffset {k : ℕ} (hfits : offset + (2 ^ k - 1) < 2 ^ 64) :
    IsLeast {m | 2 ^ k ∣ m ∧ offset ≤ m} (alignOffset offset (2 ^ k)) := by
  have hround := alignOffset_two_pow hfits
  have hdvd : 2 ^ k ∣ alignOffset offset (2 ^ k) := by
    have hdiv := Nat.mod_add_div (offset + (2 ^ k - 1)) (2 ^ k)
    exact ⟨(offset + (2 ^ k - 1)) / 2 ^ k, by omega⟩
  refine ⟨⟨hdvd, by omega⟩, ?_⟩
  rintro m ⟨⟨j, rfl⟩, hm⟩
  obtain ⟨i, hi⟩ := hdvd
  rw [hi] at hround ⊢
  -- one multiple less would be below the offset
  have hij : i ≤ j := by
    by_contra hlt
    have hstep : 2 ^ k * (j + 1) ≤ 2 ^ k * i := Nat.mul_le_mul_left _ (by omega)
    rw [Nat.mul_succ] at hstep
    omega
  exact Nat.mul_le_mul_left _ hij

/-- An offset that is a multiple already, and has a bit of the mask, is
moved. -/
theorem not_isLeast_alignOffset (hpos : alignment ≠ 0) (hlt : alignment < 2 ^ 64)
    (hdvd : alignment ∣ offset) (hbit : offset &&& (alignment - 1) ≠ 0) :
    ¬ IsLeast {m | alignment ∣ m ∧ offset ≤ m} (alignOffset offset alignment) := by
  intro hleast
  have hle : alignOffset offset alignment ≤ offset := hleast.2 ⟨hdvd, Nat.le_refl _⟩
  have hge : offset ≤ alignOffset offset alignment := hleast.1.2
  have hsame : alignOffset offset alignment = offset := Nat.le_antisymm hle hge
  have hmask : (UInt64.ofNat (alignment - 1)).toNat = alignment - 1 :=
    UInt64.toNat_ofNat_of_lt' (Nat.lt_of_le_of_lt (Nat.sub_le _ _) hlt)
  have hcleared := mask_cleared (UInt64.ofNat (saturatingAdd offset (alignment - 1)))
    (UInt64.ofNat (alignment - 1))
  rw [alignOffset, if_neg hpos] at hsame
  rw [hsame, hmask] at hcleared
  exact hbit hcleared

/-- For an alignment that is not a power of two there is such an offset, as
large as wanted but not too large. -/
theorem exists_misaligned (hpos : alignment ≠ 0) (hlt : alignment < 2 ^ 32)
    (hpow : ¬ alignment.isPowerOfTwo) :
    ∃ offset, 323 ≤ offset ∧ offset < 2 ^ 45 ∧ alignment ∣ offset ∧
      offset &&& (alignment - 1) ≠ 0 := by
  have hbit : alignment &&& (alignment - 1) ≠ 0 :=
    fun hzero => hpow ((Nat.and_sub_one_eq_zero_iff_isPowerOfTwo hpos).1 hzero)
  rcases Nat.lt_or_ge alignment (2 ^ 12) with hsmall | hlarge
  · -- many times over: the low bits are those of the alignment itself
    refine ⟨alignment * (1 + 2 ^ 12), ?_, ?_, Nat.dvd_mul_right _ _, ?_⟩
    · omega
    · omega
    · intro hzero
      apply hbit
      have hlow : alignment * (1 + 2 ^ 12) % 2 ^ 12 = alignment := by
        rw [Nat.mul_add, Nat.mul_one, Nat.add_mul_mod_self_right, Nat.mod_eq_of_lt hsmall]
      have hmask : (alignment - 1) % 2 ^ 12 = alignment - 1 := Nat.mod_eq_of_lt (by omega)
      have hand := Nat.and_mod_two_pow (a := alignment * (1 + 2 ^ 12)) (b := alignment - 1) (n := 12)
      rw [hzero, hlow, hmask] at hand
      exact hand.symm
  · exact ⟨alignment, by omega, by omega, Nat.dvd_refl _, hbit⟩

/-! ## Headers -/

section

variable {F : Type} (f64 : F64 F) (utf8Error : List UInt8 → String)

/-- The tensor data of a parsed header starts at the least multiple of an
alignment that is not below the end of the tensor table. -/
def Aligned (stack : ℕ) (bytes : List UInt8) (header : GgufHeader F) (alignment : ℕ) : Prop :=
  ∃ rest, readTables utf8Error stack bytes = .ok ((header.metadata, header.tensors), rest) ∧
    IsLeast {m | alignment ∣ m ∧ bytes.length - rest.length ≤ m} header.tensorDataOffset

/-- **Which alignments are respected.** The data of every file that declares
an alignment starts at the least multiple of it after the tables exactly
when the alignment is a power of two. A slice has fewer than 2⁶³ bytes. -/
theorem aligned_iff_isPowerOfTwo (hf : f64.Lawful) (alignment : UInt32) :
    (∀ (stack : ℕ) (bytes : List UInt8) (header : GgufHeader F), bytes.length < 2 ^ 63 →
      parseHeaderBytes f64 utf8Error stack bytes = .ok header →
      getAlignment header.metadata = alignment.toNat →
        Aligned utf8Error stack bytes header alignment.toNat) ↔
      alignment.toNat.isPowerOfTwo := by
  have hlt : alignment.toNat < 2 ^ 32 := alignment.toNat_lt
  constructor
  · intro hall
    by_contra hpow
    -- a header that ends where the mask rounds wrongly
    obtain ⟨offset, hlarge, hsmall, hmissed⟩ : ∃ offset, 323 ≤ offset ∧ offset < 2 ^ 45 ∧
        ¬ IsLeast {m | alignment.toNat ∣ m ∧ offset ≤ m} (alignOffset offset alignment.toNat) := by
      by_cases hzero : alignment.toNat = 0
      · refine ⟨323, Nat.le_refl _, by decide, fun hleast => ?_⟩
        obtain ⟨hdvd, hle⟩ := hleast.1
        rw [hzero] at hdvd hle
        omega
      · obtain ⟨offset, hlarge, hsmall, hdvd, hbit⟩ := exists_misaligned hzero hlt hpow
        exact ⟨offset, hlarge, hsmall,
          not_isLeast_alignOffset hzero (Nat.lt_trans hlt (by decide)) hdvd hbit⟩
    have hlength : (smallHeader alignment (offset - 323) []).encode.length = offset := by
      rw [length_smallHeader]
      omega
    have hwf : (smallHeader alignment (offset - 323) []).WellFormed :=
      wellFormed_smallHeader (by omega) (fun t ht => by cases ht) (by decide)
    obtain ⟨config, hconfig⟩ := config_smallHeader hf alignment (offset - 323) []
    have hdepth := depth_smallHeader alignment (offset - 323) []
    have hparse := parse_encode utf8Error f64 hwf hdepth hconfig []
    rw [List.append_nil] at hparse
    obtain ⟨rest, htables, hleast⟩ := hall _ _ _ (by omega) hparse
      (alignment_smallHeader alignment (offset - 323) [])
    have hread := reads_readTables utf8Error hwf hdepth []
    rw [List.append_nil] at hread
    have hrest : rest = [] := by
      have hboth := htables.symm.trans hread
      exact (Prod.mk.inj (Except.ok.inj hboth)).2
    rw [hrest, List.length_nil, Nat.sub_zero, alignment_smallHeader, hlength] at hleast
    exact hmissed hleast
  · rintro ⟨k, hk⟩ stack bytes header hlen hparse halign
    obtain ⟨rest, htables, hoffset⟩ := tables_of_parse utf8Error f64 hparse
    refine ⟨rest, htables, ?_⟩
    rw [hoffset, halign, hk]
    rw [hk] at hlt
    exact isLeast_alignOffset (by omega)

end

/-- An alignment of 24 is declared, and the data starts at 328, which is no
multiple of it. -/
theorem alignment_not_respected :
    ∃ out, parseHeaderBytes F64.exact (fun _ => "") 2 (smallHeader 24 0 []).encode = .ok out ∧
      getAlignment out.metadata = 24 ∧ out.tensorDataOffset = 328 ∧ ¬ 24 ∣ 328 := by
  have hwf : (smallHeader 24 0 []).WellFormed :=
    wellFormed_smallHeader (by decide) (fun t ht => by cases ht) (by decide)
  obtain ⟨config, hconfig⟩ := config_smallHeader F64.exact_lawful 24 0 []
  have hparse := parse_encode (fun _ => "") F64.exact hwf (depth_smallHeader 24 0 []) hconfig []
  rw [List.append_nil] at hparse
  refine ⟨_, hparse, alignment_smallHeader 24 0 [], ?_, by decide⟩
  have hoffset : alignOffset (323 + 0) (UInt32.toNat 24) = 328 := by decide
  rw [alignment_smallHeader, length_smallHeader]
  exact hoffset

/-- The default alignment of the format. -/
theorem aligned_smallHeader :
    let bytes := (smallHeader 32 5 []).encode
    ∃ out, parseHeaderBytes F64.exact (fun _ => "") 2 bytes = .ok out ∧
      Aligned (fun _ => "") 2 bytes out 32 := by
  intro bytes
  have hwf : (smallHeader 32 5 []).WellFormed :=
    wellFormed_smallHeader (by decide) (fun t ht => by cases ht) (by decide)
  obtain ⟨config, hconfig⟩ := config_smallHeader F64.exact_lawful 32 5 []
  have hparse := parse_encode (fun _ => "") F64.exact hwf (depth_smallHeader 32 5 []) hconfig []
  rw [List.append_nil] at hparse
  have hlen : bytes.length < 2 ^ 63 := by
    rw [length_smallHeader]
    decide
  exact ⟨_, hparse, (aligned_iff_isPowerOfTwo F64.exact (fun _ => "") F64.exact_lawful 32).2
    ⟨5, rfl⟩ _ _ _ hlen hparse (alignment_smallHeader 32 5 [])⟩

end Fracture.Gguf
