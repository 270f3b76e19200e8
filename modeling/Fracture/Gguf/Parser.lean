import Fracture.Common.Parsing
import Fracture.Core.Tensor
import Fracture.Protocol.Frame
import Mathlib.Data.List.AList
import Mathlib.Tactic.NormNum

/-!
# The header of a model file

A GGUF file starts with a header: a table of metadata, which has strings and
nested arrays in it, and a table of tensors. The parser reads both, finds
where the data of the tensors starts, and makes the model's configuration
of the metadata.

Floating point numbers are kept as their bits; `F64` is what is computed
from them. The text the standard library gives for bad UTF-8 is a
parameter.
-/

namespace Fracture.Gguf

open Parsing LittleEndian

/-- What is computed on `f64`. -/
structure F64 (F : Type) where
  ofBits : UInt64 → F
  /-- The value of an `f32`, widened. -/
  ofF32Bits : UInt32 → F
  /-- A number written in the source. -/
  lit : ℚ → F
  le : F → F → Bool

/-- Numbers that are written as positive compare so. -/
structure F64.Lawful {F : Type} (f64 : F64 F) : Prop where
  pos : ∀ q : ℚ, 1 / 100000 ≤ q → f64.le (f64.lit q) (f64.lit 0) = false

/-- GGUF magic number: "GGUF" in little-endian. -/
def ggufMagic : UInt32 := 0x46554747

/-- Only GGUF version 3 is supported. -/
def ggufVersion : UInt32 := 3

/-- Rational numbers in the place of `f64`, with no bits. -/
def F64.exact : F64 ℚ where
  ofBits _ := 0
  ofF32Bits _ := 0
  lit q := q
  le a b := a ≤ b

theorem F64.exact_lawful : F64.exact.Lawful where
  pos q hq := decide_eq_false (by
    intro hle
    have hpos : (0 : ℚ) < 1 / 100000 := by norm_num
    exact absurd (lt_of_lt_of_le hpos hq) (not_lt.2 hle))

inductive MetadataType where
  | uint8
  | int8
  | uint16
  | int16
  | uint32
  | int32
  | float32
  | bool
  | string
  | array
  | uint64
  | int64
  | float64
deriving DecidableEq, Repr

namespace MetadataType

/-- The type's number in a file. -/
def code : MetadataType → UInt32
  | .uint8 => 0
  | .int8 => 1
  | .uint16 => 2
  | .int16 => 3
  | .uint32 => 4
  | .int32 => 5
  | .float32 => 6
  | .bool => 7
  | .string => 8
  | .array => 9
  | .uint64 => 10
  | .int64 => 11
  | .float64 => 12

def fromU32 (v : UInt32) : Except Fault MetadataType :=
  match v.toNat with
  | 0 => .ok .uint8
  | 1 => .ok .int8
  | 2 => .ok .uint16
  | 3 => .ok .int16
  | 4 => .ok .uint32
  | 5 => .ok .int32
  | 6 => .ok .float32
  | 7 => .ok .bool
  | 8 => .ok .string
  | 9 => .ok .array
  | 10 => .ok .uint64
  | 11 => .ok .int64
  | 12 => .ok .float64
  | _ => err (.ggufParse s!"unknown metadata type: {v}")

end MetadataType

/-- The tensor data types of the format. -/
inductive GgufDType where
  | F32
  | F16
  | Q4_0
  | Q4_1
  | Q5_0
  | Q5_1
  | Q8_0
  | Q8_1
  | Q2K
  | Q3K
  | Q4K
  | Q5K
  | Q6K
  | Iq2Xxs
  | Iq2Xs
  | Iq3Xxs
  | Iq1S
  | Iq4Nl
  | Iq3S
  | Iq2S
  | Iq4Xs
  | I8
  | I16
  | I32
  | I64
  | F64
  | Iq1M
  | Bf16
deriving DecidableEq, Repr

namespace GgufDType

def fromU32 (v : UInt32) : Except Fault GgufDType :=
  match v.toNat with
  | 0 => .ok .F32
  | 1 => .ok .F16
  | 2 => .ok .Q4_0
  | 3 => .ok .Q4_1
  | 6 => .ok .Q5_0
  | 7 => .ok .Q5_1
  | 8 => .ok .Q8_0
  | 9 => .ok .Q8_1
  | 10 => .ok .Q2K
  | 11 => .ok .Q3K
  | 12 => .ok .Q4K
  | 13 => .ok .Q5K
  | 14 => .ok .Q6K
  | 15 => .ok .Iq2Xxs
  | 16 => .ok .Iq2Xs
  | 17 => .ok .Iq3Xxs
  | 18 => .ok .Iq1S
  | 19 => .ok .Iq4Nl
  | 20 => .ok .Iq3S
  | 21 => .ok .Iq2S
  | 22 => .ok .Iq4Xs
  | 23 => .ok .I8
  | 24 => .ok .I16
  | 25 => .ok .I32
  | 26 => .ok .I64
  | 27 => .ok .F64
  | 28 => .ok .Iq1M
  | 30 => .ok .Bf16
  | _ => err (.ggufParse s!"unknown tensor dtype: {v}")

/-- The name of the variant, as it is printed in an error. -/
def debugName : GgufDType → String
  | .F32 => "F32"
  | .F16 => "F16"
  | .Q4_0 => "Q4_0"
  | .Q4_1 => "Q4_1"
  | .Q5_0 => "Q5_0"
  | .Q5_1 => "Q5_1"
  | .Q8_0 => "Q8_0"
  | .Q8_1 => "Q8_1"
  | .Q2K => "Q2K"
  | .Q3K => "Q3K"
  | .Q4K => "Q4K"
  | .Q5K => "Q5K"
  | .Q6K => "Q6K"
  | .Iq2Xxs => "Iq2Xxs"
  | .Iq2Xs => "Iq2Xs"
  | .Iq3Xxs => "Iq3Xxs"
  | .Iq1S => "Iq1S"
  | .Iq4Nl => "Iq4Nl"
  | .Iq3S => "Iq3S"
  | .Iq2S => "Iq2S"
  | .Iq4Xs => "Iq4Xs"
  | .I8 => "I8"
  | .I16 => "I16"
  | .I32 => "I32"
  | .I64 => "I64"
  | .F64 => "F64"
  | .Iq1M => "Iq1M"
  | .Bf16 => "Bf16"

def toFractureDtype : GgufDType → Except Fault DType
  | .F32 => .ok .fp32
  | .F16 => .ok .fp16
  | .Bf16 => .ok .bf16
  | .I8 => .ok .int8
  | other =>
    let name := other.debugName
    err (.unsupportedDType s!"GGUF dtype {name} not yet supported")

end GgufDType

/-- A typed metadata value. Floating point numbers are their bits. -/
inductive MetadataValue where
  | uint8 (v : UInt8)
  | int8 (v : Int8)
  | uint16 (v : UInt16)
  | int16 (v : Int16)
  | uint32 (v : UInt32)
  | int32 (v : Int32)
  | float32 (bits : UInt32)
  | bool (v : Bool)
  | string (v : String)
  | array (v : List MetadataValue)
  | uint64 (v : UInt64)
  | int64 (v : Int64)
  | float64 (bits : UInt64)

namespace MetadataValue

def asU32 : MetadataValue → Option UInt32
  | .uint32 v => some v
  | .uint64 v => some v.toUInt32
  | .int32 v => some v.toUInt32
  | .uint16 v => some v.toUInt32
  | .uint8 v => some v.toUInt32
  | _ => none

def asF64 {F : Type} (f64 : F64 F) : MetadataValue → Option F
  | .float64 bits => some (f64.ofBits bits)
  | .float32 bits => some (f64.ofF32Bits bits)
  | _ => none

def asStr : MetadataValue → Option String
  | .string s => some s
  | _ => none

/-- The number of values in an array. -/
def arrayLen : MetadataValue → Option ℕ
  | .array v => some v.length
  | _ => none

end MetadataValue

/-- The metadata by key; a later entry replaces an earlier one. -/
abbrev Metadata := AList fun _ : String => MetadataValue

structure TensorInfo where
  name : String
  shape : List ℕ
  dtype : DType
  offset : UInt64
  ggufDtype : UInt32
deriving DecidableEq

/-- Model architecture configuration. -/
structure ModelConfig (F : Type) where
  hiddenSize : ℕ
  numLayers : ℕ
  numQHeads : ℕ
  numKvHeads : ℕ
  headDim : ℕ
  intermediateSize : ℕ
  vocabSize : ℕ
  ropeTheta : F
  rmsNormEps : F
  maxSeqLen : ℕ

/-- The config is internally consistent. -/
def ModelConfig.validate {F : Type} (f64 : F64 F) (c : ModelConfig F) : Except Fault Unit :=
  let headDim := c.headDim
  let hiddenSize := c.hiddenSize
  let numQHeads := c.numQHeads
  let numKvHeads := c.numKvHeads
  if c.hiddenSize = 0 then err (.modelConfig "hidden_size must be > 0")
  else if c.numLayers = 0 then err (.modelConfig "num_layers must be > 0")
  else if c.numQHeads = 0 then err (.modelConfig "num_q_heads must be > 0")
  else if c.numKvHeads = 0 then err (.modelConfig "num_kv_heads must be > 0")
  else if c.vocabSize = 0 then err (.modelConfig "vocab_size must be > 0")
  else if c.headDim ≠ c.hiddenSize / c.numQHeads then
    err (.modelConfig
      s!"head_dim ({headDim}) != hidden_size ({hiddenSize}) / num_q_heads ({numQHeads})")
  else if c.intermediateSize = 0 then err (.modelConfig "intermediate_size must be > 0")
  else if c.maxSeqLen = 0 then err (.modelConfig "max_seq_len must be > 0")
  else if f64.le c.ropeTheta (f64.lit 0) then err (.modelConfig "rope_theta must be > 0.0")
  else if f64.le c.rmsNormEps (f64.lit 0) then err (.modelConfig "rms_norm_eps must be > 0.0")
  else if c.numQHeads % c.numKvHeads ≠ 0 then
    err (.modelConfig
      s!"num_q_heads ({numQHeads}) must be divisible by num_kv_heads ({numKvHeads})")
  else .ok ()

structure GgufHeader (F : Type) where
  config : ModelConfig F
  metadata : Metadata
  tensors : List TensorInfo
  tensorDataOffset : ℕ

/-! ## Reading -/

abbrev Reader := Parser UInt8 Fault

def readExact (n : ℕ) : Reader (List UInt8) := fun bytes =>
  if n ≤ bytes.length then .ok (bytes.take n, bytes.drop n)
  else err (.io "failed to fill whole buffer")

/-- A number of so many bytes. -/
def readLe (width : ℕ) : Reader ℕ := ofBytes <$> readExact width

def readU8 : Reader UInt8 := UInt8.ofNat <$> readLe 1

def readU16 : Reader UInt16 := UInt16.ofNat <$> readLe 2

def readU32 : Reader UInt32 := UInt32.ofNat <$> readLe 4

def readU64 : Reader UInt64 := UInt64.ofNat <$> readLe 8

/-- How much input is left. -/
def remaining : Reader ℕ := fun bytes => .ok (bytes.length, bytes)

section

variable (utf8Error : List UInt8 → String)

def fromUtf8 (buf : List UInt8) : Except Fault String :=
  match String.fromUTF8? ⟨buf.toArray⟩ with
  | some s => .ok s
  | none =>
    let e := utf8Error buf
    err (.ggufParse s!"invalid UTF-8 in string: {e}")

/-- A string: its length, then its bytes. -/
def readGgufString : Reader String := do
  let len ← readU64
  let left ← remaining
  if left < len.toNat then
    throw (.error (.ggufParse s!"string length {len} exceeds remaining input {left}"))
  else do
    let buf ← readExact len.toNat
    fromUtf8 utf8Error buf

/-- A value of a type, its elements read by a call that is yet to be
given. -/
def readTypedValueWith (readElem : MetadataType → Reader MetadataValue) :
    MetadataType → Reader MetadataValue
  | .uint8 => .uint8 <$> readU8
  | .int8 => (fun v => .int8 v.toInt8) <$> readU8
  | .uint16 => .uint16 <$> readU16
  | .int16 => (fun v => .int16 v.toInt16) <$> readU16
  | .uint32 => .uint32 <$> readU32
  | .int32 => (fun v => .int32 v.toInt32) <$> readU32
  | .float32 => .float32 <$> readU32
  | .bool => (fun v => .bool (v != 0)) <$> readU8
  | .string => .string <$> readGgufString utf8Error
  | .uint64 => .uint64 <$> readU64
  | .int64 => (fun v => .int64 v.toInt64) <$> readU64
  | .float64 => .float64 <$> readU64
  | .array => do
    let elemTypeCode ← readU32
    let elemType ← MetadataType.fromU32 elemTypeCode
    let len ← readU64
    let values ← times len.toNat (readElem elemType)
    pure (.array values)

/-- A value of a type. A call takes a frame of the stack, and the elements
of an array are read by further calls. -/
def readTypedValue : ℕ → MetadataType → Reader MetadataValue
  | 0, _ => throw (.panicked .stackOverflow)
  | stack + 1, typ => readTypedValueWith utf8Error (readTypedValue stack) typ

def readMetadataValue (stack : ℕ) : Reader MetadataValue := do
  let typeCode ← readU32
  let typ ← MetadataType.fromU32 typeCode
  readTypedValue utf8Error stack typ

/-- One entry of the metadata. -/
def readEntry (stack : ℕ) : Reader (String × MetadataValue) := do
  let key ← readGgufString utf8Error
  let value ← readMetadataValue utf8Error stack
  pure (key, value)

/-- One entry of the tensor table. The file has the dimensions innermost
first. -/
def readTensorInfo : Reader TensorInfo := do
  let name ← readGgufString utf8Error
  let ndims ← readU32
  let shape ← times ndims.toNat readU64
  let dtypeCode ← readU32
  let ggufDtype ← GgufDType.fromU32 dtypeCode
  let dtype ← ggufDtype.toFractureDtype
  let offset ← readU64
  pure { name, shape := (shape.map UInt64.toNat).reverse, dtype, offset, ggufDtype := dtypeCode }

/-- The map of entries, in the order they are read. -/
def insertAll (entries : List (String × MetadataValue)) : Metadata :=
  entries.foldl (fun metadata entry => metadata.insert entry.1 entry.2) ∅

/-- All of the header, up to the end of the tensor table. -/
def readTables (stack : ℕ) : Reader (Metadata × List TensorInfo) := do
  let magic ← readU32
  if magic ≠ ggufMagic then
    let expected := hexText 8 ggufMagic.toNat
    let got := hexText 8 magic.toNat
    throw (.error (.ggufParse s!"invalid magic: expected 0x{expected}, got 0x{got}"))
  else do
    let version ← readU32
    if version ≠ ggufVersion then
      throw (.error
        (.ggufParse s!"unsupported GGUF version: {version} (only v3 supported)"))
    else do
      let tensorCount ← readU64
      let metadataKvCount ← readU64
      let entries ← times metadataKvCount.toNat (readEntry utf8Error stack)
      let tensors ← times tensorCount.toNat (readTensorInfo utf8Error)
      pure (insertAll entries, tensors)

end

/-! ## The header -/

def getAlignment (metadata : Metadata) : ℕ :=
  (((metadata.lookup "general.alignment").bind MetadataValue.asU32).map UInt32.toNat).getD 32

/-- The sum, or the largest `usize` if it does not fit. -/
def saturatingAdd (a b : ℕ) : ℕ := min (a + b) (2 ^ 64 - 1)

def alignOffset (offset alignment : ℕ) : ℕ :=
  if alignment = 0 then offset
  else
    (UInt64.ofNat (saturatingAdd offset (alignment - 1)) &&&
      ~~~ UInt64.ofNat (alignment - 1)).toNat

def getU32 (metadata : Metadata) (key : String) : Except Fault ℕ :=
  match (metadata.lookup key).bind MetadataValue.asU32 with
  | some v => .ok v.toNat
  | none => err (.ggufParse s!"missing metadata key: {key}")

section

variable {F : Type} (f64 : F64 F)

def getF64 (metadata : Metadata) (key : String) (default : F) : F :=
  ((metadata.lookup key).bind (MetadataValue.asF64 f64)).getD default

def getVocabSize (metadata : Metadata) (arch : String) : Except Fault ℕ :=
  match (metadata.lookup "tokenizer.ggml.tokens").bind MetadataValue.arrayLen with
  | some n => .ok n
  | none =>
    match (metadata.lookup s!"{arch}.vocab_size").bind MetadataValue.asU32 with
    | some v => .ok v.toNat
    | none => err (.ggufParse "cannot determine vocab_size")

/-- The configuration of the metadata, by the key names of llama.cpp. -/
def extractModelConfig (metadata : Metadata) : Except Fault (ModelConfig F) := do
  let arch := ((metadata.lookup "general.architecture").bind MetadataValue.asStr).getD "llama"
  let hiddenSize ← getU32 metadata s!"{arch}.embedding_length"
  let numLayers ← getU32 metadata s!"{arch}.block_count"
  let numQHeads ← getU32 metadata s!"{arch}.attention.head_count"
  let numKvHeads ← getU32 metadata s!"{arch}.attention.head_count_kv"
  let intermediateSize ← getU32 metadata s!"{arch}.feed_forward_length"
  let vocabSize ← getVocabSize metadata arch
  if numQHeads = 0 then
    err (.ggufParse s!"{arch}.attention.head_count must be > 0")
  else do
    let config : ModelConfig F :=
      { hiddenSize, numLayers, numQHeads, numKvHeads
        headDim := hiddenSize / numQHeads
        intermediateSize, vocabSize
        ropeTheta := getF64 f64 metadata s!"{arch}.rope.freq_base" (f64.lit 500000)
        rmsNormEps :=
          getF64 f64 metadata s!"{arch}.attention.layer_norm_rms_epsilon" (f64.lit (1 / 100000))
        maxSeqLen :=
          (((metadata.lookup s!"{arch}.context_length").bind MetadataValue.asU32).map
            UInt32.toNat).getD 8192 }
    config.validate f64
    .ok config

/-- The header of a file, read with a stack of so many frames. -/
def parseHeaderBytes (utf8Error : List UInt8 → String) (stack : ℕ) (bytes : List UInt8) :
    Except Fault (GgufHeader F) := do
  let tables ← readTables utf8Error stack bytes
  let currentPos := bytes.length - tables.2.length
  let config ← extractModelConfig f64 tables.1.1
  .ok
    { config
      metadata := tables.1.1
      tensors := tables.1.2
      tensorDataOffset := alignOffset currentPos (getAlignment tables.1.1) }

end

end Fracture.Gguf
