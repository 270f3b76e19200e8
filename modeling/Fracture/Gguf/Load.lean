import Fracture.Engine.Model
import Fracture.Gguf.Upload

/-!
# Loading weights

A worker loads the tensors of its layer range from a model file onto the
device. The embedding table, the output norm and the projection to logits
are loaded whatever the range is. What is uploaded is kept as the list of
device tensors, each with its shape and element type.
-/

namespace Fracture

open Effect

/-- The weights of a layer, by the name of their tensor. -/
inductive LayerField where
  | attnQ
  | attnK
  | attnV
  | attnOutput
  | ffnGate
  | ffnUp
  | ffnDown
  | attnNorm
  | ffnNorm
deriving DecidableEq, Repr

namespace LayerField

def suffix : LayerField → String
  | .attnQ => "attn_q.weight"
  | .attnK => "attn_k.weight"
  | .attnV => "attn_v.weight"
  | .attnOutput => "attn_output.weight"
  | .ffnGate => "ffn_gate.weight"
  | .ffnUp => "ffn_up.weight"
  | .ffnDown => "ffn_down.weight"
  | .attnNorm => "attn_norm.weight"
  | .ffnNorm => "ffn_norm.weight"

/-- The fields in the order they are loaded. -/
def all : List LayerField :=
  [.attnQ, .attnK, .attnV, .attnOutput, .ffnGate, .ffnUp, .ffnDown, .attnNorm, .ffnNorm]

end LayerField

/-- The name of a tensor of a model. -/
inductive TensorName where
  | tokenEmbd
  | outputNorm
  | output
  | blk (layer : ℕ) (field : LayerField)
deriving DecidableEq, Repr

def TensorName.text : TensorName → String
  | .tokenEmbd => "token_embd.weight"
  | .outputNorm => "output_norm.weight"
  | .output => "output.weight"
  | .blk layer field =>
    let suffix := field.suffix
    s!"blk.{layer}.{suffix}"

/-- A parsed model file, with its bytes. -/
structure GgufFile where
  config : ModelConfig
  tensors : List Gguf.TensorInfo
  mmap : List UInt8
  tensorDataOffset : ℕ

namespace GgufFile

/-- The tensor of a name; a later one replaces an earlier. -/
def tensor (file : GgufFile) (name : TensorName) : Option Gguf.TensorInfo :=
  file.tensors.reverse.find? fun t => t.name == name.text

variable (build : Build) (device : Gguf.Device) (conv : Gguf.HalfConversion) (file : GgufFile)

def uploadTensor (t : Gguf.TensorInfo) : Except Fault Gguf.Uploaded :=
  Gguf.uploadTensor build device conv t file.mmap file.tensorDataOffset

def uploadQkTensor (t : Gguf.TensorInfo) (numHeads : ℕ) : Except Fault Gguf.Uploaded :=
  Gguf.uploadQkTensor build device t file.mmap file.tensorDataOffset numHeads file.config.headDim

def loadRequired (name : TensorName) : Except Fault Gguf.Uploaded :=
  match file.tensor name with
  | none =>
    let text := name.text
    err (.weightLoad s!"missing required tensor: {text}")
  | some t => file.uploadTensor build device conv t

/-- Uploads a tensor of a layer. -/
def uploadField (t : Gguf.TensorInfo) : LayerField → Except Fault Gguf.Uploaded
  | .attnQ => file.uploadQkTensor build device t file.config.numQHeads
  | .attnK => file.uploadQkTensor build device t file.config.numKvHeads
  | _ => file.uploadTensor build device conv t

/-- Uploads one tensor of a layer, if the file has it. -/
def loadField (layer : ℕ) (field : LayerField) : Except Fault (Option DeviceTensor) :=
  match file.tensor (.blk layer field) with
  | none => .ok none
  | some t => do
    let uploaded ← file.uploadField build device conv t field
    .ok (some uploaded.tensor)

end GgufFile

/-- A layer's tensor, which has to be there. -/
def requireField (layer : ℕ) (field : LayerField) (t : Option DeviceTensor) :
    Except Fault DeviceTensor :=
  match t with
  | some t => .ok t
  | none =>
    let text := (TensorName.blk layer field).text
    err (.weightLoad s!"missing required tensor: {text}")

/-- The device tensors of a worker: those every worker has, and those of
each layer of its range. -/
structure LoadedWeights where
  tokenEmbedding : DeviceTensor
  outputNorm : DeviceTensor
  lmHead : DeviceTensor
  layers : List (List DeviceTensor)
deriving DecidableEq, Repr

namespace LoadedWeights

/-- `WeightStore::load` for a layer range. -/
def load (build : Build) (device : Gguf.Device) (conv : Gguf.HalfConversion) (file : GgufFile)
    (range : LayerRange) : Except Fault LoadedWeights :=
  let numLayers := file.config.numLayers
  let stop := range.stop
  if numLayers < stop then
    err (.weightLoad s!"layer_range end {stop} exceeds model layer count {numLayers}")
  else do
    let tokenEmbedding ← file.loadRequired build device conv .tokenEmbd
    let outputNorm ← file.loadRequired build device conv .outputNorm
    let lmHead ← file.loadRequired build device conv .output
    let _layerCount ← checkedSub range.stop range.start
    let uploaded ← range.layers.mapM fun layer =>
      LayerField.all.mapM (file.loadField build device conv layer)
    let layers ← (range.layers.zip uploaded).mapM fun p =>
      (LayerField.all.zip p.2).mapM fun q => requireField p.1 q.1 q.2
    .ok { tokenEmbedding := tokenEmbedding.tensor, outputNorm := outputNorm.tensor,
          lmHead := lmHead.tensor, layers }

/-- All tensors on the device. -/
def tensors (w : LoadedWeights) : List DeviceTensor :=
  w.tokenEmbedding :: w.outputNorm :: w.lmHead :: w.layers.flatten

/-- Device memory of the weights. -/
def sizeBytes (w : LoadedWeights) : ℕ := (w.tensors.map (·.sizeBytes)).sum

end LoadedWeights

/-- The keys and values of one sequence, for so many layers and tokens. -/
def sequenceCache (config : ModelConfig) (maxSeqLen numLayers : ℕ) : List DeviceTensor :=
  (List.replicate numLayers
    [(⟨[maxSeqLen, config.numKvHeads, config.headDim], .fp16⟩ : DeviceTensor),
      ⟨[maxSeqLen, config.numKvHeads, config.headDim], .fp16⟩]).flatten

/-! ## Files of a model's shape -/

/-- The shape a model gives the tensor of a layer. -/
def LayerField.shape (config : ModelConfig) : LayerField → List ℕ
  | .attnQ => [config.numQHeads * config.headDim, config.hiddenSize]
  | .attnK | .attnV => [config.numKvHeads * config.headDim, config.hiddenSize]
  | .attnOutput => [config.hiddenSize, config.numQHeads * config.headDim]
  | .ffnGate | .ffnUp => [config.intermediateSize, config.hiddenSize]
  | .ffnDown => [config.hiddenSize, config.intermediateSize]
  | .attnNorm | .ffnNorm => [config.hiddenSize]

namespace TensorName

/-- The shape a model gives a tensor. -/
def shape (config : ModelConfig) : TensorName → List ℕ
  | .tokenEmbd | .output => [config.vocabSize, config.hiddenSize]
  | .outputNorm => [config.hiddenSize]
  | .blk _ field => field.shape config

/-- The names of a model's tensors. -/
def all (config : ModelConfig) : List TensorName :=
  .tokenEmbd :: .outputNorm :: .output ::
    (List.range config.numLayers).flatMap fun layer => LayerField.all.map (.blk layer)

theorem blk_mem_all {config : ModelConfig} {layer : ℕ} (h : layer < config.numLayers)
    (field : LayerField) : .blk layer field ∈ all config := by
  have hfield : field ∈ LayerField.all := by cases field <;> decide
  simp [all, h, hfield]

end TensorName

/-- The file's tensors are FP16 and have the shapes of its model. -/
def GgufFile.Conforms (file : GgufFile) : Prop :=
  ∀ t ∈ file.tensors, t.dtype = .fp16 ∧
    ∀ name ∈ TensorName.all file.config, t.name = name.text → t.shape = name.shape file.config

variable {build : Build} {device : Gguf.Device} {conv : Gguf.HalfConversion} {file : GgufFile}

namespace GgufFile

variable {t : Gguf.TensorInfo} {u : Gguf.Uploaded} {name : TensorName}

theorem Conforms.tensor (hfile : file.Conforms) (hname : name ∈ TensorName.all file.config)
    (h : file.tensor name = some t) : t.dtype = .fp16 ∧ t.shape = name.shape file.config := by
  have hmem : t ∈ file.tensors := List.mem_reverse.1 (List.mem_of_find?_eq_some h)
  obtain ⟨htype, hall⟩ := hfile t hmem
  exact ⟨htype, hall name hname (by simpa using List.find?_some h)⟩

theorem place_eq_ok {shape : List ℕ} {dtype : DType} {range : ℕ × ℕ} {bytes : List UInt8}
    (h : Gguf.place device shape dtype range bytes = .ok u) : u.tensor = ⟨shape, dtype⟩ := by
  obtain ⟨-, -, h⟩ := except_bind_eq_ok.1 h
  obtain ⟨data, -, h⟩ := except_bind_eq_ok.1 h
  cases h
  rfl

theorem uploadTensor_eq_ok (h : file.uploadTensor build device conv t = .ok u)
    (ht : t.dtype = .fp16) : u.tensor = ⟨t.shape, .fp16⟩ := by
  obtain ⟨range, -, h⟩ := except_bind_eq_ok.1 h
  obtain ⟨bytes, -, h⟩ := except_bind_eq_ok.1 h
  rw [ht] at h
  exact place_eq_ok h

theorem uploadQkTensor_eq_ok {numHeads : ℕ} (h : file.uploadQkTensor build device t numHeads = .ok u) :
    u.tensor = ⟨t.shape, .fp16⟩ := by
  obtain ⟨range, -, h⟩ := except_bind_eq_ok.1 h
  obtain ⟨bytes, -, h⟩ := except_bind_eq_ok.1 h
  obtain ⟨hidden, -, h⟩ := except_bind_eq_ok.1 h
  obtain ⟨fixed, -, h⟩ := except_bind_eq_ok.1 h
  exact place_eq_ok h

/-- A required tensor is uploaded in the model's shape. -/
theorem loadRequired_eq_ok (hfile : file.Conforms) (hname : name ∈ TensorName.all file.config)
    (h : file.loadRequired build device conv name = .ok u) :
    u.tensor = ⟨name.shape file.config, .fp16⟩ := by
  unfold loadRequired at h
  split at h
  · cases h
  · next t ht =>
    obtain ⟨htype, hshape⟩ := hfile.tensor hname ht
    rw [uploadTensor_eq_ok h htype, hshape]

/-- A tensor of a layer is uploaded in the model's shape. -/
theorem loadField_eq_ok (hfile : file.Conforms) {layer : ℕ} (hlayer : layer < file.config.numLayers)
    {field : LayerField} {d : DeviceTensor}
    (h : file.loadField build device conv layer field = .ok (some d)) :
    d = ⟨field.shape file.config, .fp16⟩ := by
  unfold loadField at h
  split at h
  · cases h
  · next t ht =>
    obtain ⟨htype, hshape⟩ := hfile.tensor (TensorName.blk_mem_all hlayer field) ht
    obtain ⟨u, hu, h⟩ := except_bind_eq_ok.1 h
    cases h
    change _ = DeviceTensor.mk ((TensorName.blk layer field).shape file.config) _
    rw [← hshape]
    cases field
    case attnQ | attnK => exact uploadQkTensor_eq_ok hu
    all_goals exact uploadTensor_eq_ok hu htype

end GgufFile

/-- The tensors of a layer of the model. -/
def layerTensors (config : ModelConfig) : List DeviceTensor :=
  LayerField.all.map fun field => ⟨field.shape config, .fp16⟩

variable {range : LayerRange} {w : LoadedWeights}

/-- Everything a conforming file puts on the device: the tensors every
worker has, and the nine of each layer of the range. -/
theorem LoadedWeights.load_tensors (hfile : file.Conforms)
    (h : load build device conv file range = .ok w) :
    w.tensors = ⟨[file.config.vocabSize, file.config.hiddenSize], .fp16⟩ ::
      ⟨[file.config.hiddenSize], .fp16⟩ ::
      ⟨[file.config.vocabSize, file.config.hiddenSize], .fp16⟩ ::
      (List.replicate range.len (layerTensors file.config)).flatten := by
  unfold load at h
  dsimp only at h
  split at h
  · cases h
  · next hstop =>
    obtain ⟨embedding, hembedding, h⟩ := except_bind_eq_ok.1 h
    obtain ⟨norm, hnorm, h⟩ := except_bind_eq_ok.1 h
    obtain ⟨lmHead, hlmHead, h⟩ := except_bind_eq_ok.1 h
    obtain ⟨-, -, h⟩ := except_bind_eq_ok.1 h
    obtain ⟨uploaded, huploaded, h⟩ := except_bind_eq_ok.1 h
    obtain ⟨layers, hlayers, h⟩ := except_bind_eq_ok.1 h
    cases h
    -- both passes over a field leave the tensor the model gives it
    have hlayer : ∀ l ∈ range.layers, ∀ (os : List (Option DeviceTensor)) (ts : List DeviceTensor),
        LayerField.all.mapM (file.loadField build device conv l) = .ok os →
        ((LayerField.all.zip os).mapM fun q => requireField l q.1 q.2) = .ok ts →
        ts = layerTensors file.config := by
      intro l hl os ts hload hrequire
      have hlt : l < file.config.numLayers := by
        have := List.mem_range'_1.1 hl
        omega
      refine eq_map_of_except_mapM_zip (fun field _ o d ho hd => ?_) hload hrequire
      cases o with
      | none => cases hd
      | some d' =>
        cases hd
        exact GgufFile.loadField_eq_ok hfile hlt ho
    have hall := eq_map_of_except_mapM_zip hlayer huploaded hlayers
    have hlen : range.layers.length = range.len := List.length_range'
    rw [List.map_const', hlen] at hall
    simp only [tensors, hall, GgufFile.loadRequired_eq_ok hfile (by simp [TensorName.all]) hembedding,
      GgufFile.loadRequired_eq_ok hfile (by simp [TensorName.all]) hnorm,
      GgufFile.loadRequired_eq_ok hfile (by simp [TensorName.all]) hlmHead, TensorName.shape]

/-! ## Bytes -/

/-- Bytes of the three tensors every worker loads. -/
def globalBytes (config : ModelConfig) : ℕ :=
  (config.vocabSize * config.hiddenSize + config.hiddenSize
    + config.vocabSize * config.hiddenSize) * 2

/-- Bytes of a layer's weights. -/
def layerBytes (config : ModelConfig) : ℕ :=
  ((layerTensors config).map (·.sizeBytes)).sum

theorem LoadedWeights.load_sizeBytes (hfile : file.Conforms)
    (h : load build device conv file range = .ok w) :
    w.sizeBytes = globalBytes file.config + range.len * layerBytes file.config := by
  rw [sizeBytes, load_tensors hfile h]
  simp only [List.map_cons, List.sum_cons, List.map_flatten, List.sum_flatten, List.map_replicate,
    List.sum_replicate_nat, layerBytes, globalBytes, DeviceTensor.sizeBytes, DeviceTensor.numel,
    DType.sizeBytes, List.prod_cons, List.prod_nil, Nat.mul_one, reduceCtorEq, if_false]
  ring

theorem sequenceCache_sizeBytes (config : ModelConfig) (maxSeqLen numLayers : ℕ) :
    ((sequenceCache config maxSeqLen numLayers).map (·.sizeBytes)).sum
      = numLayers * (maxSeqLen * (config.numKvHeads * config.headDim) * 2 * 2) := by
  simp only [sequenceCache, List.map_flatten, List.sum_flatten, List.map_replicate,
    List.sum_replicate_nat, List.map_cons, List.map_nil, List.sum_cons, List.sum_nil,
    DeviceTensor.sizeBytes, DeviceTensor.numel, DType.sizeBytes, List.prod_cons, List.prod_nil,
    Nat.mul_one, reduceCtorEq, if_false]
  ring

end Fracture
