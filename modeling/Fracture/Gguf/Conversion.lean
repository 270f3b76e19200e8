import Fracture.Gguf.Upload

/-!
# Conversion to half precision

Weights are kept on the device in half precision. `uploadTensor` converts
single precision and `bf16` data; `uploadQkTensor` moves the bytes of the
file as if they were half precision already. What it leaves on the device
is the de-interleaving of the converted tensor for half precision data,
and for data of another type only where no row is moved at all.
-/

namespace Fracture.Gguf

open Effect Rows LittleEndian

/-- The size of a tensor as the device computes it. In a debug build no
tensor whose size wraps gets as far as this. -/
def cudaSize (t : DeviceTensor) : ℕ :=
  if t.dtype = .int4 then (t.numel % 2 ^ 64 + 1) / 2
  else t.numel * t.dtype.sizeBytes % 2 ^ 64

def cudaCopyToDevice (dst : DeviceTensor) (src : List UInt8) :
    Except FractureError (List UInt8) :=
  let size := cudaSize dst
  let srcLen := src.length
  if src.length < cudaSize dst then
    .error (.invalidShape s!"source buffer too small: {srcLen} < {size}")
  else .ok (src.take size)

/-- The CUDA backend, with some allocator. -/
def cudaDevice (alloc : List ℕ → DType → Except FractureError Unit) : Device where
  alloc := alloc
  copyToDevice := cudaCopyToDevice

/-- One is one in each format. -/
structure HalfConversion.Lawful (conv : HalfConversion) : Prop where
  f16 : conv.f16FromF32 0x3F800000 = 0x3C00
  bf16 : conv.bf16ToF32 0x3F80 = 0x3F800000

/-- The types of element that weights are loaded from. -/
def IsWeightType (dtype : DType) : Prop := dtype = .fp16 ∨ dtype = .bf16 ∨ dtype = .fp32

/-- The bytes of a weight tensor, in half precision. -/
def halfBytes (conv : HalfConversion) (dtype : DType) (bytes : List UInt8) : List UInt8 :=
  if dtype = .fp32 then f16OfF32Bytes conv bytes
  else if dtype = .bf16 then f16OfBf16Bytes conv bytes
  else bytes

/-! ## Lengths -/

variable {bytes : List UInt8}

theorem length_f16OfF32Bytes (conv : HalfConversion) (bytes : List UInt8) :
    (f16OfF32Bytes conv bytes).length = bytes.length / 4 * 2 := by
  fun_induction f16OfF32Bytes conv bytes with
  | case1 c0 c1 c2 c3 rest ih =>
    rw [List.length_append, length_toBytes, ih]
    simp only [List.length_cons]
    omega
  | case2 bytes hshort =>
    match bytes, hshort with
    | [], _ | [_], _ | [_, _], _ | [_, _, _], _ => simp
    | c0 :: c1 :: c2 :: c3 :: rest, hshort => exact (hshort c0 c1 c2 c3 rest rfl).elim

theorem length_f16OfBf16Bytes (conv : HalfConversion) (bytes : List UInt8) :
    (f16OfBf16Bytes conv bytes).length = bytes.length / 2 * 2 := by
  fun_induction f16OfBf16Bytes conv bytes with
  | case1 c0 c1 rest ih =>
    rw [List.length_append, length_toBytes, ih]
    simp only [List.length_cons]
    omega
  | case2 bytes hshort =>
    match bytes, hshort with
    | [], _ | [_], _ => simp
    | c0 :: c1 :: rest, hshort => exact (hshort c0 c1 rest rfl).elim

variable {dtype : DType} {n : ℕ}

theorem length_halfBytes (conv : HalfConversion) (hdtype : IsWeightType dtype)
    (h : bytes.length = n * dtype.sizeBytes) : (halfBytes conv dtype bytes).length = n * 2 := by
  rcases hdtype with rfl | rfl | rfl
  · exact h
  · refine (length_f16OfBf16Bytes conv bytes).trans ?_
    rw [h, DType.sizeBytes, Nat.mul_div_cancel n (by decide)]
  · refine (length_f16OfF32Bytes conv bytes).trans ?_
    rw [h, DType.sizeBytes, Nat.mul_div_cancel n (by decide)]

/-! ## What the uploads leave on the device -/

section

variable {build : Build} {alloc : List ℕ → DType → Except FractureError Unit} {tensor : TensorInfo}
  {mmap : List UInt8} {dataOffset : ℕ}

/-- Where the allocator has room, the first bytes reach the device. -/
theorem place_cuda {range : ℕ × ℕ} (halloc : alloc tensor.shape .fp16 = .ok ())
    (hsize : tensor.shape.prod * 2 < 2 ^ 64) (hlen : tensor.shape.prod * 2 ≤ bytes.length) :
    place (cudaDevice alloc) tensor.shape .fp16 range bytes =
      .ok ⟨range.1, range.2, ⟨tensor.shape, .fp16⟩, bytes.take (tensor.shape.prod * 2)⟩ := by
  have hcuda : cudaSize ⟨tensor.shape, .fp16⟩ = tensor.shape.prod * 2 := Nat.mod_eq_of_lt hsize
  have hcopy : (cudaDevice alloc).copyToDevice ⟨tensor.shape, .fp16⟩ bytes =
      .ok (bytes.take (tensor.shape.prod * 2)) := by
    change cudaCopyToDevice _ _ = _
    rw [cudaCopyToDevice, hcuda, if_neg (Nat.not_lt.2 hlen)]
  have halloc' : (cudaDevice alloc).alloc tensor.shape .fp16 = .ok () := halloc
  rw [place, halloc', hcopy]
  rfl

theorem size_lt_of_fits (hfits : tensor.RangeFits dataOffset) :
    tensor.shape.prod * tensor.dtype.sizeBytes < 2 ^ 64 := by
  have hstop := hfits.stop
  rw [TensorInfo.stop] at hstop
  omega

variable (hdtype : IsWeightType tensor.dtype)
include hdtype

theorem two_mul_le_of_isWeight :
    tensor.shape.prod * 2 ≤ tensor.shape.prod * tensor.dtype.sizeBytes := by
  refine Nat.mul_le_mul_left _ ?_
  rcases hdtype with h | h | h <;> rw [h] <;> decide

/-- **What `uploadTensor` leaves on the device**: for a weight tensor, its
bytes in half precision. -/
theorem uploadTensor_cuda_eq_ok {conv : HalfConversion} (hfits : tensor.RangeFits dataOffset)
    {u : Uploaded} :
    uploadTensor build (cudaDevice alloc) conv tensor mmap dataOffset = .ok u ↔
      tensor.stop dataOffset ≤ mmap.length ∧ alloc tensor.shape .fp16 = .ok () ∧
        u = ⟨tensor.start dataOffset, tensor.stop dataOffset, ⟨tensor.shape, .fp16⟩,
          halfBytes conv tensor.dtype (tensor.bytes mmap dataOffset)⟩ := by
  obtain ⟨hbeyond, hwithin⟩ := tensorRange_of_fits build mmap.length hfits
  rcases Nat.lt_or_ge mmap.length (tensor.stop dataOffset) with hlt | hge
  · obtain ⟨e, he⟩ := hbeyond hlt
    have herr : uploadTensor build (cudaDevice alloc) conv tensor mmap dataOffset = err e := by
      rw [uploadTensor, he]
      rfl
    rw [herr]
    constructor
    · intro h
      cases h
    · intro h
      exact absurd h.1 (Nat.not_le.2 hlt)
  · have hlen := length_halfBytes conv hdtype (slice_range hge).2
    have hsize := (two_mul_le_of_isWeight hdtype).trans_lt (size_lt_of_fits hfits)
    have hplace : uploadTensor build (cudaDevice alloc) conv tensor mmap dataOffset =
        place (cudaDevice alloc) tensor.shape .fp16
          (tensor.start dataOffset, tensor.stop dataOffset)
          (halfBytes conv tensor.dtype (tensor.bytes mmap dataOffset)) := by
      rw [uploadTensor, hwithin hge, except_ok_bind, (slice_range hge).1, except_ok_bind]
      generalize tensor.bytes mmap dataOffset = bytes
      rcases hdtype with h | h | h <;> rw [h] <;> rfl
    rw [hplace]
    cases halloc : alloc tensor.shape .fp16 with
    | error e =>
      have herr : place (cudaDevice alloc) tensor.shape .fp16
          (tensor.start dataOffset, tensor.stop dataOffset)
          (halfBytes conv tensor.dtype (tensor.bytes mmap dataOffset)) = err e := by
        have halloc' : (cudaDevice alloc).alloc tensor.shape .fp16 = .error e := halloc
        rw [place, halloc']
        rfl
      rw [herr]
      constructor
      · intro h
        cases h
      · rintro ⟨-, hok, -⟩
        cases hok
    | ok _ =>
      rw [place_cuda halloc hsize (Nat.le_of_eq hlen.symm), ← hlen, List.take_length]
      exact ⟨fun h => ⟨hge, rfl, (Except.ok.inj h).symm⟩, fun h => by rw [h.2.2]⟩

/-- **What `uploadQkTensor` leaves on the device**: the first half-precision
bytes of the de-interleaved raw bytes. -/
theorem uploadQkTensor_cuda {numHeads headDim hidden : ℕ}
    (hshape : tensor.shape = [numHeads * headDim, hidden]) (hfits : tensor.RangeFits dataOffset)
    (hin : tensor.stop dataOffset ≤ mmap.length) (halloc : alloc tensor.shape .fp16 = .ok ())
    {fixed : List UInt8}
    (hfixed : reverseQkPermutation build (tensor.bytes mmap dataOffset) numHeads headDim hidden =
      .ok fixed) (hlen : fixed.length = tensor.shape.prod * tensor.dtype.sizeBytes) :
    uploadQkTensor build (cudaDevice alloc) tensor mmap dataOffset numHeads headDim =
      .ok ⟨tensor.start dataOffset, tensor.stop dataOffset, ⟨tensor.shape, .fp16⟩,
        fixed.take (tensor.shape.prod * 2)⟩ := by
  have hhidden : index tensor.shape 1 = .ok hidden := by rw [hshape]; rfl
  have htwo := two_mul_le_of_isWeight hdtype
  have hsize := htwo.trans_lt (size_lt_of_fits hfits)
  rw [uploadQkTensor, (tensorRange_of_fits build mmap.length hfits).2 hin, except_ok_bind,
    (slice_range hin).1, except_ok_bind, hhidden, except_ok_bind, hfixed, except_ok_bind,
    place_cuda halloc hsize (by rw [hlen]; exact htwo)]

end

/-! ## Converting and de-interleaving -/

/-- What `uploadQkTensor` leaves on the device is the de-interleaving of what
`uploadTensor` leaves there. -/
def Deinterleaves (build : Build) (device : Device) (conv : HalfConversion) (tensor : TensorInfo)
    (mmap : List UInt8) (tensorDataOffset numHeads headDim : ℕ) : Prop :=
  ∀ u, uploadTensor build device conv tensor mmap tensorDataOffset = .ok u →
    uploadQkTensor build device tensor mmap tensorDataOffset numHeads headDim = (do
      let hidden ← index tensor.shape 1
      let data ← reverseQkPermutation build u.data numHeads headDim hidden
      .ok { u with data })

variable {build : Build} {data : List UInt8} {numHeads hidden : ℕ}

/-- Heads of a single row are not moved, and none of them is copied either. -/
theorem reverseQkPermutation_one (hfit : HeadsFit numHeads 1 hidden data.length) :
    reverseQkPermutation build data numHeads 1 hidden = .ok (List.replicate data.length 0) := by
  have hturn : ∀ h < numHeads, ∀ out, out = List.replicate data.length 0 →
      ∃ out', moveHead build data (1 / 2) (hidden * 2) (1 * (hidden * 2)) out h = .ok out' ∧
        out' = List.replicate data.length 0 := by
    intro h hh out hout
    refine ⟨out, ?_, hout⟩
    rw [moveHead, Build.mul_of_lt (hfit.start h hh), except_ok_bind]
    rfl
  obtain ⟨out, hout, rfl⟩ := Loops.exists_of_invariant
    (fun _ out => out = List.replicate data.length 0) rfl hturn
  rw [reverseQkPermutation, Build.mul_of_lt hfit.row, except_ok_bind, Build.mul_of_lt hfit.head,
    except_ok_bind, hout]

/-- Elements that are all one, in the format of the file. -/
def ones (dtype : DType) (n : ℕ) : List UInt8 :=
  (List.replicate n (if dtype = .fp32 then [0, 0, 0x80, 0x3F] else [0x80, 0x3F])).flatten

variable {conv : HalfConversion}

theorem length_ones (hdtype : IsWeightType dtype) :
    (ones dtype n).length = n * dtype.sizeBytes := by
  rcases hdtype with rfl | rfl | rfl <;> simp [ones, DType.sizeBytes]

/-- Some data of another type than half precision whose second byte is not
that of the converted data. -/
theorem ones_unlike_half (hconv : conv.Lawful) (hdtype : IsWeightType dtype) (hne : dtype ≠ .fp16)
    (hn : 0 < n) : (ones dtype n)[1]? ≠ (halfBytes conv dtype (ones dtype n))[1]? := by
  obtain ⟨n, rfl⟩ := Nat.exists_eq_add_one_of_ne_zero (Nat.pos_iff_ne_zero.1 hn)
  rcases hdtype with rfl | rfl | rfl
  · exact absurd rfl hne
  · have hhalf : halfBytes conv .bf16 (ones .bf16 (n + 1)) =
        toBytes 2 (conv.f16FromF32 (conv.bf16ToF32 0x3F80)).toNat ++
          f16OfBf16Bytes conv (ones .bf16 n) := rfl
    rw [hhalf, hconv.bf16, hconv.f16]
    simp [ones, List.replicate_succ, toBytes]
  · have hhalf : halfBytes conv .fp32 (ones .fp32 (n + 1)) =
        toBytes 2 (conv.f16FromF32 0x3F800000).toNat ++ f16OfF32Bytes conv (ones .fp32 n) := rfl
    rw [hhalf, hconv.f16]
    simp [ones, List.replicate_succ, toBytes]

/-- The first row of the first head stays where it is. -/
theorem first_row_of_reverse {out : List UInt8} {headDim : ℕ} (hheads : 0 < numHeads)
    (hdim : 2 ≤ headDim) (hhidden : 0 < hidden) (hlen : data.length < 2 ^ 64)
    (hfit : HeadsFit numHeads headDim hidden data.length)
    (hout : reverseQkPermutation build data numHeads headDim hidden = .ok out) :
    out[1]? = data[1]? := by
  obtain ⟨out', hout', hplaced⟩ := exists_reverseQkPermutation build hlen hfit
  obtain rfl : out = out' := Except.ok.inj (hout.symm.trans hout')
  have hzero : storedAt headDim 0 = 0 := by
    have hhalf : 0 < headDim / 2 := by omega
    have hfirst := storedAt_first 0 hhalf
    simpa using hfirst
  have hroom : hidden * 2 ≤ data.length := by
    have hwithin := hfit.within 0 hheads (by omega)
    have hone : 1 * (hidden * 2) ≤ 2 * (headDim / 2) * (hidden * 2) :=
      Nat.mul_le_mul_right _ (by omega)
    omega
  have hrow := hplaced.moved 0 ⟨0, hheads, 0, by omega, by simp⟩ (by omega)
  rw [hzero, Nat.zero_mul] at hrow
  have hsecond : ∀ xs : List UInt8, (window xs 0 (hidden * 2))[1]? = xs[1]? := by
    intro xs
    rw [window, List.drop_zero, List.getElem?_take_of_lt (by omega)]
  rw [← hsecond out, hrow, hsecond data]

section

variable {conv : HalfConversion} {tensor : TensorInfo} {numHeads headDim hidden dataOffset : ℕ}

section

variable (hheads : 0 < numHeads) (hdim : 0 < headDim)
  (hshape : tensor.shape = [numHeads * headDim, hidden])
include hheads hdim hshape

/-- The rows of a query or key tensor fit bytes enough for half precision. -/
theorem headsFit_weight {len : ℕ} (hle : tensor.shape.prod * 2 ≤ len) (hlen : len < 2 ^ 64) :
    HeadsFit numHeads headDim hidden len := by
  have hrows : numHeads * headDim * (hidden * 2) = tensor.shape.prod * 2 := by
    rw [hshape, List.prod_cons, List.prod_singleton]
    ring
  have hpos : 0 < numHeads * headDim := Nat.mul_pos hheads hdim
  have hrow : hidden * 2 ≤ numHeads * headDim * (hidden * 2) := Nat.le_mul_of_pos_left _ hpos
  exact headsFit_of_rows (by omega) hheads (by omega) hlen

/-- The two ways compared: what is on the device is the same exactly where
the first bytes of the de-interleaved raw data are the de-interleaving of
the converted data. -/
theorem deinterleaves_iff_take (hdtype : IsWeightType tensor.dtype)
    (hfits : tensor.RangeFits dataOffset) {build : Build}
    {alloc : List ℕ → DType → Except FractureError Unit} {mmap : List UInt8}
    (hin : tensor.stop dataOffset ≤ mmap.length) (halloc : alloc tensor.shape .fp16 = .ok ()) :
    Deinterleaves build (cudaDevice alloc) conv tensor mmap dataOffset numHeads headDim ↔
      ∃ fixed fixed',
        reverseQkPermutation build (tensor.bytes mmap dataOffset) numHeads headDim hidden =
          .ok fixed ∧
        reverseQkPermutation build
          (halfBytes conv tensor.dtype (tensor.bytes mmap dataOffset)) numHeads headDim hidden =
          .ok fixed' ∧
        fixed.take (tensor.shape.prod * 2) = fixed' := by
  have hraw := (slice_range hin).2
  have hhalf := length_halfBytes conv hdtype hraw
  have htwo := two_mul_le_of_isWeight hdtype
  have hlt := size_lt_of_fits hfits
  obtain ⟨fixed, hfixed, hplaced⟩ := exists_reverseQkPermutation build (by omega)
    (headsFit_weight hheads hdim hshape (Nat.le_trans htwo (Nat.le_of_eq hraw.symm))
      (by omega))
  obtain ⟨fixed', hfixed', -⟩ := exists_reverseQkPermutation build (by omega)
    (headsFit_weight hheads hdim hshape (Nat.le_of_eq hhalf.symm) (by omega))
  have hqk := uploadQkTensor_cuda hdtype hshape hfits hin halloc hfixed
    (hplaced.length_eq.trans hraw)
  have hhidden : index tensor.shape 1 = .ok hidden := by rw [hshape]; rfl
  constructor
  · intro h
    have hboth := h _ ((uploadTensor_cuda_eq_ok hdtype hfits).2 ⟨hin, halloc, rfl⟩)
    rw [hqk, hhidden, except_ok_bind, hfixed', except_ok_bind] at hboth
    exact ⟨fixed, fixed', hfixed, hfixed', congrArg Uploaded.data (Except.ok.inj hboth)⟩
  · rintro ⟨out, out', hout, hout', htake⟩ u hu
    obtain rfl : fixed = out := Except.ok.inj (hfixed.symm.trans hout)
    obtain ⟨-, -, rfl⟩ := (uploadTensor_cuda_eq_ok hdtype hfits).1 hu
    rw [hqk, hhidden, except_ok_bind, hout', except_ok_bind, htake]

end

/-- **Converting and de-interleaving commute** for the query and key tensors
that are stored in half precision, and for no other type unless a head has a
single row. -/
theorem deinterleaves_iff_fp16 (hconv : conv.Lawful) (hdtype : IsWeightType tensor.dtype)
    (hheads : 0 < numHeads) (hdim : 0 < headDim) (hhidden : 0 < hidden)
    (hshape : tensor.shape = [numHeads * headDim, hidden])
    (hfits : tensor.RangeFits dataOffset) :
    (∀ build alloc mmap, Deinterleaves build (cudaDevice alloc) conv tensor mmap dataOffset
      numHeads headDim) ↔ tensor.dtype = .fp16 ∨ headDim = 1 := by
  have htwo := two_mul_le_of_isWeight hdtype
  have hlt := size_lt_of_fits hfits
  constructor
  · intro h
    by_contra hneg
    obtain ⟨hne, hone⟩ := not_or.1 hneg
    have hprod : 0 < tensor.shape.prod := by
      rw [hshape, List.prod_cons, List.prod_singleton]
      exact Nat.mul_pos (Nat.mul_pos hheads hdim) hhidden
    have hlen := length_ones (n := tensor.shape.prod) hdtype
    -- a file whose tensor is one throughout
    let mmap := List.replicate (tensor.start dataOffset) 0 ++ ones tensor.dtype tensor.shape.prod
    have hin : tensor.stop dataOffset ≤ mmap.length := by
      rw [List.length_append, List.length_replicate, hlen, TensorInfo.stop]
    have hbytes : tensor.bytes mmap dataOffset = ones tensor.dtype tensor.shape.prod := by
      have hright := window_append_right (List.replicate (tensor.start dataOffset) 0)
        (ones tensor.dtype tensor.shape.prod) 0 (tensor.shape.prod * tensor.dtype.sizeBytes)
      rw [List.length_replicate, Nat.zero_add] at hright
      rw [TensorInfo.bytes, hright, ← hlen, window_zero_length]
    obtain ⟨fixed, fixed', hfixed, hfixed', htake⟩ :=
      (deinterleaves_iff_take hheads hdim hshape hdtype hfits hin rfl).1
        (h .debug (fun _ _ => .ok ()) mmap)
    rw [hbytes] at hfixed hfixed'
    have hhalf := length_halfBytes conv hdtype hlen
    have hfirst := first_row_of_reverse hheads (by omega) hhidden (by omega)
      (headsFit_weight hheads hdim hshape (by omega) (by omega)) hfixed
    have hfirst' := first_row_of_reverse hheads (by omega) hhidden (by omega)
      (headsFit_weight hheads hdim hshape (by omega) (by omega)) hfixed'
    rw [← htake, List.getElem?_take_of_lt (by omega), hfirst] at hfirst'
    exact ones_unlike_half hconv hdtype hne hprod hfirst'
  · intro hcond build alloc mmap u hu
    obtain ⟨hin, halloc, -⟩ := (uploadTensor_cuda_eq_ok hdtype hfits).1 hu
    refine (deinterleaves_iff_take hheads hdim hshape hdtype hfits hin halloc).2 ?_ u hu
    have hraw := (slice_range hin).2
    have hhalf := length_halfBytes conv hdtype hraw
    have hfit := headsFit_weight hheads hdim hshape
      (Nat.le_trans htwo (Nat.le_of_eq hraw.symm)) (by omega)
    rcases hcond with hfp16 | rfl
    · obtain ⟨fixed, hfixed, hplaced⟩ := exists_reverseQkPermutation build (by omega) hfit
      have hsame : halfBytes conv tensor.dtype (tensor.bytes mmap dataOffset) =
          tensor.bytes mmap dataOffset := by
        rw [halfBytes, if_neg (by rw [hfp16]; decide), if_neg (by rw [hfp16]; decide)]
      refine ⟨fixed, fixed, hfixed, by rw [hsame, hfixed], List.take_of_length_le ?_⟩
      rw [hplaced.length_eq, hraw, hfp16]
      exact Nat.le_refl _
    · refine ⟨_, _, reverseQkPermutation_one hfit, reverseQkPermutation_one
        (headsFit_weight hheads hdim hshape (Nat.le_of_eq hhalf.symm) (by omega)), ?_⟩
      rw [List.take_replicate, hhalf, hraw, Nat.min_eq_left htwo]

end

/-- Conversions that are right about one. -/
def oneConversion : HalfConversion where
  f16FromF32 bits := if bits = 0x3F800000 then 0x3C00 else 0
  bf16ToF32 bits := if bits = 0x3F80 then 0x3F800000 else 0

theorem oneConversion_lawful : oneConversion.Lawful := ⟨rfl, rfl⟩

theorem deinterleaves_fp16 :
    let tensor : TensorInfo := ⟨"blk.0.attn_q.weight", [4, 3], .fp16, 0, 1⟩
    tensor.RangeFits 0 ∧ ∀ build alloc mmap,
      Deinterleaves build (cudaDevice alloc) oneConversion tensor mmap 0 2 2 := by
  intro tensor
  have hfits : tensor.RangeFits 0 := ⟨by unfold Build.ProductFits; decide, by decide⟩
  exact ⟨hfits, (deinterleaves_iff_fp16 oneConversion_lawful (.inl rfl) (by decide) (by decide)
    (by decide) rfl hfits).2 (.inl rfl)⟩

/-- Two rows of ones in `bf16`: one upload puts ones on the device, the other
the bytes of the file. -/
theorem bf16_left_unconverted :
    let tensor : TensorInfo := ⟨"blk.0.attn_q.weight", [2, 1], .bf16, 0, 30⟩
    let mmap : List UInt8 := [0x80, 0x3F, 0x80, 0x3F]
    let device := cudaDevice fun _ _ => .ok ()
    uploadTensor .release device oneConversion tensor mmap 0 =
        .ok ⟨0, 4, ⟨[2, 1], .fp16⟩, [0, 0x3C, 0, 0x3C]⟩ ∧
      reverseQkPermutation .release [0, 0x3C, 0, 0x3C] 1 2 1 = .ok [0, 0x3C, 0, 0x3C] ∧
      uploadQkTensor .release device tensor mmap 0 1 2 =
        .ok ⟨0, 4, ⟨[2, 1], .fp16⟩, [0x80, 0x3F, 0x80, 0x3F]⟩ := by
  decide +kernel

end Fracture.Gguf
