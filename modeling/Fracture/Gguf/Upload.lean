import Fracture.Gguf.Deinterleave
import Fracture.Gguf.RoundTrip

/-!
# Uploading a tensor

The data of a tensor is a range of the file, found from the descriptor's
dimensions and offset by arithmetic on `usize`. `uploadTensor` converts it
to half precision and copies it to the device; `uploadQkTensor`, for the
query and key projections, undoes their interleaving instead.

The device and the conversions between number formats are parameters.
-/

namespace Fracture.Gguf

open Effect Rows LittleEndian

/-- The device that tensors are copied to. `copyToDevice` gives the bytes
that the tensor's memory then has. -/
structure Device where
  alloc : List ℕ → DType → Except FractureError Unit
  copyToDevice : DeviceTensor → List UInt8 → Except FractureError (List UInt8)

/-- Conversions between floating point formats, on their bits. -/
structure HalfConversion where
  f16FromF32 : UInt32 → UInt16
  bf16ToF32 : UInt16 → UInt32

/-- A tensor on the device, its bytes, and the range of the file they were
read from. -/
structure Uploaded where
  start : ℕ
  stop : ℕ
  tensor : DeviceTensor
  data : List UInt8
deriving DecidableEq

section

variable (build : Build) (tensor : TensorInfo) (tensorDataOffset : ℕ)

/-- Chunks of four bytes, each a single precision number, as half precision. -/
def f16OfF32Bytes (conv : HalfConversion) : List UInt8 → List UInt8
  | c0 :: c1 :: c2 :: c3 :: rest =>
    toBytes 2 (conv.f16FromF32 (.ofNat (ofBytes [c0, c1, c2, c3]))).toNat ++
      f16OfF32Bytes conv rest
  | _ => []

/-- Chunks of two bytes, each a `bf16` number, as half precision. -/
def f16OfBf16Bytes (conv : HalfConversion) : List UInt8 → List UInt8
  | c0 :: c1 :: rest =>
    toBytes 2 (conv.f16FromF32 (conv.bf16ToF32 (.ofNat (ofBytes [c0, c1])))).toNat ++
      f16OfBf16Bytes conv rest
  | _ => []

/-- The range of a tensor's data, checked against the length of the file. -/
def tensorRange (mmapLen tensorDataOffset : ℕ) :
    Except Fault (ℕ × ℕ) := do
  let numel ← build.product tensor.shape
  let byteSize ← build.mul numel tensor.dtype.sizeBytes
  let start ← build.add tensorDataOffset tensor.offset.toNat
  let stop ← build.add start byteSize
  let name := tensor.name
  if mmapLen < stop then
    err (.weightLoad s!"tensor '{name}' data [{start}..{stop}) exceeds mmap length {mmapLen}")
  else .ok (start, stop)

/-- Memory for a tensor, and the bytes copied there. -/
def place (device : Device) (shape : List ℕ) (dtype : DType) (range : ℕ × ℕ)
    (bytes : List UInt8) : Except Fault Uploaded := do
  (device.alloc shape dtype).mapError Fault.error
  let data ← (device.copyToDevice ⟨shape, dtype⟩ bytes).mapError Fault.error
  .ok ⟨range.1, range.2, ⟨shape, dtype⟩, data⟩

def uploadTensor (device : Device) (conv : HalfConversion) (tensor : TensorInfo) (mmap : List UInt8)
    (tensorDataOffset : ℕ) : Except Fault Uploaded := do
  let range ← tensorRange build tensor mmap.length tensorDataOffset
  let bytes ← slice mmap range.1 range.2
  if tensor.dtype = .fp32 then
    place device tensor.shape .fp16 range (f16OfF32Bytes conv bytes)
  else if tensor.dtype = .bf16 then
    place device tensor.shape .fp16 range (f16OfBf16Bytes conv bytes)
  else place device tensor.shape tensor.dtype range bytes

/-- A query or key tensor, its interleaving undone. -/
def uploadQkTensor (device : Device) (tensor : TensorInfo) (mmap : List UInt8)
    (tensorDataOffset numHeads headDim : ℕ) : Except Fault Uploaded := do
  let range ← tensorRange build tensor mmap.length tensorDataOffset
  let bytes ← slice mmap range.1 range.2
  let hidden ← index tensor.shape 1
  let fixed ← reverseQkPermutation build bytes numHeads headDim hidden
  place device tensor.shape .fp16 range fixed

/-! ## The range -/

/-- Where the data of a tensor starts. -/
def TensorInfo.start : ℕ :=
  tensorDataOffset + tensor.offset.toNat

/-- Where it ends. -/
def TensorInfo.stop : ℕ :=
  tensor.start tensorDataOffset + tensor.shape.prod * tensor.dtype.sizeBytes

end

/-- Neither the element count, on the way to it, nor the end of the range
leaves the range of a `usize`. -/
structure TensorInfo.RangeFits (tensor : TensorInfo) (tensorDataOffset : ℕ) : Prop where
  numel : Build.ProductFits tensor.shape
  stop : tensor.stop tensorDataOffset < 2 ^ 64

section

variable {tensor : TensorInfo} {dataOffset : ℕ}

theorem tensorRange_of_fits (build : Build) (len : ℕ) (hfits : tensor.RangeFits dataOffset) :
    (len < tensor.stop dataOffset → ∃ e, tensorRange build tensor len dataOffset = err e) ∧
      (tensor.stop dataOffset ≤ len → tensorRange build tensor len dataOffset =
        .ok (tensor.start dataOffset, tensor.stop dataOffset)) := by
  obtain ⟨hnumel, hstop⟩ := hfits
  simp only [TensorInfo.stop, TensorInfo.start] at hstop ⊢
  rw [tensorRange, Build.product_of_fits hnumel, except_ok_bind, Build.mul_of_lt (by omega),
    except_ok_bind, Build.add_of_lt (by omega), except_ok_bind, Build.add_of_lt hstop,
    except_ok_bind]
  refine ⟨fun hlt => ⟨_, if_pos hlt⟩, fun hle => ?_⟩
  rw [if_neg (Nat.not_lt.2 hle)]

/-- A debug build that does not panic has computed the range. -/
theorem rangeFits_of_returns {len : ℕ} (h : Returns (tensorRange .debug tensor len dataOffset)) :
    tensor.RangeFits dataOffset := by
  obtain ⟨numel, hnumel⟩ := (Build.onlyPanics_product _ _).exists_ok h.of_bind
  have hfits := Build.fits_of_debug_product hnumel
  rw [tensorRange, Build.product_of_fits hfits, except_ok_bind] at h
  obtain ⟨byteSize, hsize⟩ := (Build.onlyPanics_mul _ _ _).exists_ok h.of_bind
  obtain ⟨-, rfl⟩ := Build.debug_mul_eq_ok.1 hsize
  rw [hsize, except_ok_bind] at h
  obtain ⟨start, hstart⟩ := (Build.onlyPanics_add _ _ _).exists_ok h.of_bind
  obtain ⟨-, rfl⟩ := Build.debug_add_eq_ok.1 hstart
  rw [hstart, except_ok_bind] at h
  obtain ⟨stop, hstop⟩ := (Build.onlyPanics_add _ _ _).exists_ok h.of_bind
  exact ⟨hfits, (Build.debug_add_eq_ok.1 hstop).1⟩

end

/-- The bytes of the file that are the tensor's. -/
def TensorInfo.bytes (tensor : TensorInfo) (mmap : List UInt8) (tensorDataOffset : ℕ) :
    List UInt8 :=
  window mmap (tensor.start tensorDataOffset) (tensor.shape.prod * tensor.dtype.sizeBytes)

variable {tensor : TensorInfo} {mmap : List UInt8} {dataOffset : ℕ}

/-- The range is inside the file, so the tensor's bytes are there. -/
theorem slice_range (h : tensor.stop dataOffset ≤ mmap.length) :
    slice mmap (tensor.start dataOffset) (tensor.stop dataOffset) =
        .ok (tensor.bytes mmap dataOffset) ∧
      (tensor.bytes mmap dataOffset).length = tensor.shape.prod * tensor.dtype.sizeBytes :=
  ⟨slice_eq_window h, length_window h⟩

/-- What `place` returns: an error of the device, or the tensor, with the
range it was given. -/
theorem place_cases (device : Device) (shape : List ℕ) (dtype : DType) (range : ℕ × ℕ)
    (bytes : List UInt8) :
    (∃ e, place device shape dtype range bytes = err e) ∨
      ∃ u, place device shape dtype range bytes = .ok u ∧ u.start = range.1 ∧ u.stop = range.2 := by
  unfold place
  cases device.alloc shape dtype with
  | error e => exact .inl ⟨e, rfl⟩
  | ok _ =>
    cases hcopy : device.copyToDevice ⟨shape, dtype⟩ bytes with
    | error e => exact .inl ⟨e, rfl⟩
    | ok data => exact .inr ⟨⟨range.1, range.2, ⟨shape, dtype⟩, data⟩, rfl, rfl, rfl⟩

/-- An upload returns an error, or it has read the range of the tensor and
that lies inside the file. -/
def ReadsRange (tensor : TensorInfo) (mmap : List UInt8) (tensorDataOffset : ℕ)
    (result : Except Fault Uploaded) : Prop :=
  (∃ e, result = err e) ∨
    ∃ u, result = .ok u ∧ u.start = tensorDataOffset + tensor.offset.toNat ∧
      u.stop = u.start + tensor.shape.prod * tensor.dtype.sizeBytes ∧ u.stop ≤ mmap.length

theorem ReadsRange.returns {result : Except Fault Uploaded}
    (h : ReadsRange tensor mmap dataOffset result) : Returns result := by
  rcases h with ⟨e, rfl⟩ | ⟨u, rfl, -⟩
  · exact .err e
  · exact .ok u

theorem readsRange_place (hin : tensor.stop dataOffset ≤ mmap.length) (device : Device)
    (shape : List ℕ) (dtype : DType) (bytes : List UInt8) :
    ReadsRange tensor mmap dataOffset
      (place device shape dtype (tensor.start dataOffset, tensor.stop dataOffset) bytes) := by
  rcases place_cases device shape dtype (tensor.start dataOffset, tensor.stop dataOffset) bytes
    with herr | ⟨u, hu, hstart, hstop⟩
  · exact .inl herr
  · refine .inr ⟨u, hu, hstart, ?_, ?_⟩
    · rw [hstart, hstop, TensorInfo.stop]
    · rw [hstop]
      exact hin

/-- A device that takes everything. -/
def roomyDevice : Device where
  alloc _ _ := .ok ()
  copyToDevice _ bytes := .ok bytes

def zeroConversion : HalfConversion where
  f16FromF32 _ := 0
  bf16ToF32 _ := 0

theorem readsRange_uploadTensor {build : Build} {device : Device} {conv : HalfConversion}
    (hfits : tensor.RangeFits dataOffset) :
    ReadsRange tensor mmap dataOffset
      (uploadTensor build device conv tensor mmap dataOffset) := by
  obtain ⟨hbeyond, hwithin⟩ := tensorRange_of_fits build mmap.length hfits
  unfold uploadTensor
  rcases Nat.lt_or_ge mmap.length (tensor.stop dataOffset) with hlt | hge
  · obtain ⟨e, he⟩ := hbeyond hlt
    rw [he]
    exact .inl ⟨e, rfl⟩
  · rw [hwithin hge, except_ok_bind, (slice_range hge).1, except_ok_bind]
    split
    · exact readsRange_place hge device tensor.shape .fp16 _
    · split
      · exact readsRange_place hge device tensor.shape .fp16 _
      · exact readsRange_place hge device tensor.shape tensor.dtype _

/-- **Which uploads read their range.** In every build and on every device
`uploadTensor` returns an error or reads the tensor's own range exactly where
no number on the way overflows; `uploadQkTensor` where, besides, a tensor
inside the file has a second dimension and its heads fit its data. -/
theorem reads_range_iff_fits (tensor : TensorInfo) (mmap : List UInt8)
    (dataOffset numHeads headDim : ℕ) :
    ((∀ build device conv, ReadsRange tensor mmap dataOffset
        (uploadTensor build device conv tensor mmap dataOffset)) ↔
      tensor.RangeFits dataOffset) ∧
    ((∀ build device, ReadsRange tensor mmap dataOffset
        (uploadQkTensor build device tensor mmap dataOffset numHeads headDim)) ↔
      tensor.RangeFits dataOffset ∧
        (tensor.stop dataOffset ≤ mmap.length → ∃ hidden, tensor.shape[1]? = some hidden ∧
          HeadsFit numHeads headDim hidden (tensor.shape.prod * tensor.dtype.sizeBytes))) := by
  refine ⟨⟨fun h => ?_, fun hfits build device conv => readsRange_uploadTensor hfits⟩, ?_, ?_⟩
  · exact rangeFits_of_returns (h .debug roomyDevice zeroConversion).returns.of_bind
  · intro h
    have hreturns := (h .debug roomyDevice).returns
    have hfits := rangeFits_of_returns hreturns.of_bind
    refine ⟨hfits, fun hin => ?_⟩
    obtain ⟨hslice, hlen⟩ := slice_range hin
    rw [uploadQkTensor, (tensorRange_of_fits .debug mmap.length hfits).2 hin, except_ok_bind, hslice,
      except_ok_bind] at hreturns
    cases hhidden : tensor.shape[1]? with
    | none =>
      have hpanic : index tensor.shape 1 = .error (.panicked .indexOutOfBounds) := by
        rw [index, hhidden]
      rw [hpanic] at hreturns
      exact absurd rfl (hreturns _)
    | some hidden =>
      rw [index_eq_ok.2 hhidden, except_ok_bind] at hreturns
      obtain ⟨out, hout⟩ :=
        (onlyPanics_reverseQkPermutation _ _ _ _ _).exists_ok hreturns.of_bind
      have hheads := headsFit_of_debug hout
      rw [hlen] at hheads
      exact ⟨hidden, rfl, hheads⟩
  · rintro ⟨hfits, hheads⟩ build device
    obtain ⟨hbeyond, hwithin⟩ := tensorRange_of_fits build mmap.length hfits
    unfold uploadQkTensor
    rcases Nat.lt_or_ge mmap.length (tensor.stop dataOffset) with hlt | hge
    · obtain ⟨e, he⟩ := hbeyond hlt
      rw [he]
      exact .inl ⟨e, rfl⟩
    · obtain ⟨hidden, hhidden, hfit⟩ := hheads hge
      obtain ⟨hslice, hlen⟩ := slice_range hge
      have hstop := hfits.stop
      rw [← hlen] at hfit
      obtain ⟨out, hout, -⟩ := exists_reverseQkPermutation build
        (by rw [hlen]; rw [TensorInfo.stop] at hstop; omega) hfit
      rw [hwithin hge, except_ok_bind, hslice, except_ok_bind, index_eq_ok.2 hhidden,
        except_ok_bind, hout, except_ok_bind]
      exact readsRange_place hge device tensor.shape .fp16 out

/-- A tensor of two dimensions of `2 ^ 32` each: in a release build nothing of
it is read and the upload succeeds; in a debug build it panics. -/
theorem wide_tensor_reads_nothing :
    let bytes := (smallHeader 32 0
      [⟨"output.weight", [4294967296, 4294967296], .f16, 0⟩]).encode ++ List.replicate 32 0
    ∃ header tensor, parseHeaderBytes F64.exact (fun _ => "") 2 bytes = .ok header ∧
      tensor ∈ header.tensors ∧ tensor.shape.prod * tensor.dtype.sizeBytes = 2 ^ 65 ∧
      uploadTensor .release roomyDevice zeroConversion tensor bytes header.tensorDataOffset =
        .ok ⟨384, 384, ⟨[4294967296, 4294967296], .fp16⟩, []⟩ ∧
      uploadTensor .debug roomyDevice zeroConversion tensor bytes header.tensorDataOffset =
        .error (.panicked .multiplyOverflow) := by
  intro bytes
  have hwf : (smallHeader 32 0
      [⟨"output.weight", [4294967296, 4294967296], .f16, 0⟩]).WellFormed :=
    wellFormed_smallHeader (by decide) (by decide) (by decide)
  obtain ⟨config, hconfig⟩ := config_smallHeader F64.exact_lawful 32 0
    [⟨"output.weight", [4294967296, 4294967296], .f16, 0⟩]
  refine ⟨_, _, parse_encode (fun _ => "") F64.exact hwf (depth_smallHeader 32 0 _) hconfig _,
    .head _, by decide, ?_, ?_⟩
  · dsimp only
    decide +kernel
  · dsimp only
    decide +kernel

end Fracture.Gguf
