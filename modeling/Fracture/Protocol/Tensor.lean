import Fracture.Core.Tensor
import Fracture.Protocol.Frame

/-!
# The header of a tensor on the wire

Activations travel with a header that has the tensor's shape, element type
and number of bytes. A decoder gets back what was encoded, but the header
is built by casts that cut the number of dimensions to 16 bits and each
dimension and the number of bytes to 32, and nobody refuses a tensor that
does not fit.
-/

namespace Fracture

open Effect BigEndian Rows

/-- Tensor metadata sent on the wire alongside raw data. -/
structure TensorWireHeader where
  ndim : UInt16
  shape : List UInt32
  dtype : UInt8
  compression : UInt8
  dataLen : UInt32
deriving DecidableEq, Repr

def dtypeToWire : DType → UInt8
  | .fp16 => 0
  | .fp32 => 1
  | .bf16 => 2
  | .int8 => 3
  | .int4 => 4

def wireToDtype (tag : UInt8) : Except Fault DType :=
  match tag.toNat with
  | 0 => .ok .fp16
  | 1 => .ok .fp32
  | 2 => .ok .bf16
  | 3 => .ok .int8
  | 4 => .ok .int4
  | _ => err (.protocol s!"unknown dtype wire tag: {tag}")

/-- The header of a tensor; each number is cut to the width of its field. -/
def makeHeader (shape : List ℕ) (dtype : DType) (dataLen : ℕ) : TensorWireHeader where
  ndim := UInt16.ofNat shape.length
  shape := shape.map UInt32.ofNat
  dtype := dtypeToWire dtype
  compression := 0
  dataLen := UInt32.ofNat dataLen

def encodeTensorHeader (header : TensorWireHeader) : List UInt8 :=
  toBytes 2 header.ndim.toNat ++ (header.shape.map fun dim => toBytes 4 dim.toNat).flatten ++
    ([header.dtype, header.compression] ++ toBytes 4 header.dataLen.toNat)

/-- The header at the front of the data, and the number of bytes it takes. -/
def decodeTensorHeader (data : List UInt8) : Except Fault (TensorWireHeader × ℕ) :=
  if data.length < 2 then err (.protocol "tensor header too short for ndim")
  else
    let ndim := UInt16.ofNat (ofBytes (window data 0 2))
    let shapeBytes := 4 * ndim.toNat
    let headerSize := 2 + shapeBytes + 1 + 1 + 4
    let len := data.length
    if data.length < headerSize then
      err (.protocol s!"tensor header too short: need {headerSize} bytes, have {len}")
    else do
      let shape := (rowsOf 4 ndim.toNat (data.drop 2)).map fun dim => UInt32.ofNat (ofBytes dim)
      let offset := 2 + shapeBytes
      let dtype ← index data offset
      let compression ← index data (offset + 1)
      let dataLen := UInt32.ofNat (ofBytes (window data (offset + 2) 4))
      let _ ← wireToDtype dtype
      if compression ≠ 0 then err (.protocol s!"unsupported compression type: {compression}")
      else .ok ({ ndim, shape, dtype, compression, dataLen }, offset + 6)

theorem wireToDtype_dtypeToWire (dtype : DType) : wireToDtype (dtypeToWire dtype) = .ok dtype := by
  cases dtype <;> rfl

/-- A decoded header has as many dimensions as it says. -/
theorem length_shape_of_decode {data : List UInt8} {header : TensorWireHeader} {n : ℕ}
    (h : decodeTensorHeader data = .ok (header, n)) : header.shape.length = header.ndim.toNat := by
  obtain ⟨-, h⟩ := except_guard_eq_ok.1 h
  obtain ⟨-, h⟩ := except_guard_eq_ok.1 h
  obtain ⟨dtype, -, h⟩ := except_bind_eq_ok.1 h
  obtain ⟨compression, -, h⟩ := except_bind_eq_ok.1 h
  obtain ⟨_, -, h⟩ := except_bind_eq_ok.1 h
  obtain ⟨-, h⟩ := except_guard_eq_ok.1 h
  cases h
  rw [List.length_map, length_rowsOf]

/-- **A header is decoded as it was encoded**, whatever follows it. -/
theorem decode_encode_tensorHeader {header : TensorWireHeader} {dtype : DType}
    (hndim : header.shape.length = header.ndim.toNat) (hdtype : wireToDtype header.dtype = .ok dtype)
    (hcompression : header.compression = 0) (rest : List UInt8) :
    decodeTensorHeader (encodeTensorHeader header ++ rest) =
      .ok (header, (encodeTensorHeader header).length) := by
  have hpieces : ∀ piece ∈ header.shape.map fun dim => toBytes 4 dim.toNat, piece.length = 4 :=
    List.forall_mem_map.2 fun _ _ => length_toBytes 4 _
  have hdims := length_flatten_of_length_eq hpieces
  have hrows := rowsOf_flatten hpieces
  rw [List.length_map, hndim] at hdims hrows
  set dims := (header.shape.map fun dim => toBytes 4 dim.toNat).flatten with hflat
  set tail := toBytes 4 header.dataLen.toNat ++ rest with htail
  set front := toBytes 2 header.ndim.toNat ++ dims with hfront
  have hfrontLen : front.length = 2 + 4 * header.ndim.toNat := by
    rw [hfront, List.length_append, length_toBytes, hdims, Nat.mul_comm]
  have hlen : (encodeTensorHeader header).length = 2 + 4 * header.ndim.toNat + 6 := by
    rw [encodeTensorHeader, List.length_append, ← hflat, ← hfront, hfrontLen]
    simp
  -- the fields, one behind the other
  have hdata : encodeTensorHeader header ++ rest =
      front ++ ([header.dtype, header.compression] ++ tail) := by
    rw [encodeTensorHeader, List.append_assoc _ _ rest, List.append_assoc _ _ rest]
  have hfirst : window (encodeTensorHeader header ++ rest) 0 2 = toBytes 2 header.ndim.toNat := by
    rw [hdata, hfront, List.append_assoc]
    exact window_middle [] (toBytes 2 header.ndim.toNat) _
  have hlast : window (encodeTensorHeader header ++ rest) (2 + 4 * header.ndim.toNat + 2) 4 =
      toBytes 4 header.dataLen.toNat := by
    have hmiddle := window_middle (front ++ [header.dtype, header.compression])
      (toBytes 4 header.dataLen.toNat) rest
    rw [List.length_append, hfrontLen, length_toBytes, List.append_assoc] at hmiddle
    rw [hdata]
    exact hmiddle
  have hshape : (rowsOf 4 header.ndim.toNat ((encodeTensorHeader header ++ rest).drop 2)).map
      (fun dim => UInt32.ofNat (ofBytes dim)) = header.shape := by
    rw [hdata, hfront, List.append_assoc, List.drop_left' (length_toBytes 2 _),
      rowsOf_append_left hdims.ge, hrows, List.map_map]
    exact List.map_id'' (fun dim => u32_ofBytes_toBytes dim) _
  have hat : ∀ i, (encodeTensorHeader header ++ rest)[2 + 4 * header.ndim.toNat + i]? =
      (header.dtype :: header.compression :: tail)[i]? := by
    intro i
    rw [hdata, ← hfrontLen, List.getElem?_append_right (Nat.le_add_right ..), Nat.add_sub_cancel_left]
    rfl
  have htag : index (encodeTensorHeader header ++ rest) (2 + 4 * header.ndim.toNat) =
      .ok header.dtype := index_eq_ok.2 (hat 0)
  have hcount : UInt16.ofNat (ofBytes (toBytes 2 header.ndim.toNat)) = header.ndim := by
    rw [ofBytes_toBytes_of_lt header.ndim.toNat_lt, UInt16.ofNat_toNat]
  have hbytes : (encodeTensorHeader header ++ rest).length =
      2 + 4 * header.ndim.toNat + 6 + rest.length := by rw [List.length_append, hlen]
  rw [decodeTensorHeader, if_neg (by omega), hfirst]
  simp only [hcount]
  rw [if_neg (by omega), htag, except_ok_bind, index_eq_ok.2 (hat 1), except_ok_bind, hdtype,
    except_ok_bind, if_neg (not_not.2 hcompression), hshape, hlast, u32_ofBytes_toBytes, hlen]

/-- **A tensor's shape, type and length arrive** exactly if they fit the
fields of the header. -/
theorem tensorHeader_arrives_iff (shape : List ℕ) (dtype : DType) (len : ℕ) (rest : List UInt8) :
    (∃ header, decodeTensorHeader (encodeTensorHeader (makeHeader shape dtype len) ++ rest) =
        .ok (header, (encodeTensorHeader (makeHeader shape dtype len)).length) ∧
      header.shape.map UInt32.toNat = shape ∧ wireToDtype header.dtype = .ok dtype ∧
      header.dataLen.toNat = len) ↔
    shape.length < 2 ^ 16 ∧ (∀ dim ∈ shape, dim < 2 ^ 32) ∧ len < 2 ^ 32 := by
  constructor
  · rintro ⟨header, hdecode, rfl, -, rfl⟩
    refine ⟨?_, List.forall_mem_map.2 fun dim _ => dim.toNat_lt, header.dataLen.toNat_lt⟩
    rw [List.length_map, length_shape_of_decode hdecode]
    exact header.ndim.toNat_lt
  · rintro ⟨hndim, hdims, hlen⟩
    have hcount : (makeHeader shape dtype len).shape.length =
        (makeHeader shape dtype len).ndim.toNat := by
      rw [makeHeader, List.length_map, UInt16.toNat_ofNat_of_lt' hndim]
    refine ⟨makeHeader shape dtype len, decode_encode_tensorHeader hcount
      (wireToDtype_dtypeToWire dtype) rfl rest, ?_, wireToDtype_dtypeToWire dtype,
      UInt32.toNat_ofNat_of_lt' hlen⟩
    rw [makeHeader, List.map_map]
    exact (List.map_congr_left fun dim hdim => UInt32.toNat_ofNat_of_lt' (hdims dim hdim)).trans
      (List.map_id _)

/-- A tensor of more than `2 ^ 32` rows arrives as one of a single row. -/
theorem long_tensor_arrives_short :
    decodeTensorHeader (encodeTensorHeader (makeHeader [4294967297, 2] .fp16 8)) =
      .ok (⟨2, [1, 2], 0, 0, 8⟩, 16) := by
  decide +kernel

end Fracture
