import Mathlib.Algebra.BigOperators.Group.List.Basic

/-!
# Tensors on a device

A device tensor is known by its shape and element type.
-/

namespace Fracture

inductive DType where
  | fp16
  | fp32
  | bf16
  | int8
  | int4
deriving DecidableEq, Repr

/-- Bytes of one element. -/
def DType.sizeBytes : DType → ℕ
  | .fp16 => 2
  | .fp32 => 4
  | .bf16 => 2
  | .int8 => 1
  | .int4 => 1

structure DeviceTensor where
  shape : List ℕ
  dtype : DType
deriving DecidableEq, Repr

namespace DeviceTensor

def numel (t : DeviceTensor) : ℕ := t.shape.prod

/-- Device memory of the tensor; two 4-bit elements share a byte. -/
def sizeBytes (t : DeviceTensor) : ℕ :=
  if t.dtype = .int4 then (t.numel + 1) / 2 else t.numel * t.dtype.sizeBytes

end DeviceTensor

end Fracture
