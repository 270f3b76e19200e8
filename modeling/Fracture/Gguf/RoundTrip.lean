import Fracture.Gguf.Progress

/-!
# What was written is read back

Each reader of the parser reads the bytes of what it is for, whatever comes
after them. From the readers of numbers and strings this goes up to values,
by induction on the stack, and on to the tables of the header.
-/

namespace Fracture.Gguf

open Effect Parsing LittleEndian

/-!
## Headers and their bytes

What a GGUF v3 header says, as a value, and the bytes that say it. An array
names the type of its elements, also when it has none.
-/

/-- A metadata value of a header. -/
inductive Value where
  | uint8 (v : UInt8)
  | int8 (v : Int8)
  | uint16 (v : UInt16)
  | int16 (v : Int16)
  | uint32 (v : UInt32)
  | int32 (v : Int32)
  | float32 (bits : UInt32)
  | bool (v : Bool)
  | string (v : String)
  | array (elemType : MetadataType) (elems : List Value)
  | uint64 (v : UInt64)
  | int64 (v : Int64)
  | float64 (bits : UInt64)

/-- The bytes of a string. -/
def utf8 (s : String) : List UInt8 := s.toUTF8.data.toList

def encodeString (s : String) : List UInt8 := toBytes 8 (utf8 s).length ++ utf8 s

namespace Value

def type : Value → MetadataType
  | .uint8 _ => .uint8
  | .int8 _ => .int8
  | .uint16 _ => .uint16
  | .int16 _ => .int16
  | .uint32 _ => .uint32
  | .int32 _ => .int32
  | .float32 _ => .float32
  | .bool _ => .bool
  | .string _ => .string
  | .array _ _ => .array
  | .uint64 _ => .uint64
  | .int64 _ => .int64
  | .float64 _ => .float64

mutual

/-- The bytes of a value, without those of its type. -/
def encode : Value → List UInt8
  | .uint8 v => toBytes 1 v.toNat
  | .int8 v => toBytes 1 v.toUInt8.toNat
  | .uint16 v => toBytes 2 v.toNat
  | .int16 v => toBytes 2 v.toUInt16.toNat
  | .uint32 v => toBytes 4 v.toNat
  | .int32 v => toBytes 4 v.toUInt32.toNat
  | .float32 bits => toBytes 4 bits.toNat
  | .bool v => toBytes 1 v.toNat
  | .string s => encodeString s
  | .array elemType elems =>
    toBytes 4 elemType.code.toNat ++ (toBytes 8 elems.length ++ encodeAll elems)
  | .uint64 v => toBytes 8 v.toNat
  | .int64 v => toBytes 8 v.toUInt64.toNat
  | .float64 bits => toBytes 8 bits.toNat

def encodeAll : List Value → List UInt8
  | [] => []
  | v :: vs => v.encode ++ encodeAll vs

end

mutual

/-- What the parser makes of the value. -/
def decoded : Value → MetadataValue
  | .uint8 v => .uint8 v
  | .int8 v => .int8 v
  | .uint16 v => .uint16 v
  | .int16 v => .int16 v
  | .uint32 v => .uint32 v
  | .int32 v => .int32 v
  | .float32 bits => .float32 bits
  | .bool v => .bool v
  | .string s => .string s
  | .array _ elems => .array (decodedAll elems)
  | .uint64 v => .uint64 v
  | .int64 v => .int64 v
  | .float64 bits => .float64 bits

def decodedAll : List Value → List MetadataValue
  | [] => []
  | v :: vs => v.decoded :: decodedAll vs

end

mutual

/-- Lengths fit their fields, and the elements of an array are of its
type. -/
def wellFormed : Value → Bool
  | .string s => (utf8 s).length < 2 ^ 64
  | .array elemType elems => elems.length < 2 ^ 64 && allWellFormed elemType elems
  | _ => true

def allWellFormed (elemType : MetadataType) : List Value → Bool
  | [] => true
  | v :: vs => v.type == elemType && v.wellFormed && allWellFormed elemType vs

end

mutual

/-- How many calls of the reader the value takes, one inside the other. -/
def depth : Value → ℕ
  | .array _ elems => depthAll elems + 1
  | _ => 1

def depthAll : List Value → ℕ
  | [] => 0
  | v :: vs => max v.depth (depthAll vs)

end

theorem depthAll_le_iff {vs : List Value} {n : ℕ} : depthAll vs ≤ n ↔ ∀ v ∈ vs, v.depth ≤ n := by
  induction vs with
  | nil => simp [depthAll]
  | cons v vs ih => simp [depthAll, ih]

theorem encodeAll_eq (vs : List Value) : encodeAll vs = (vs.map encode).flatten := by
  induction vs with
  | nil => rfl
  | cons v vs ih => rw [encodeAll, ih, List.map_cons, List.flatten_cons]

theorem decodedAll_eq (vs : List Value) : decodedAll vs = vs.map decoded := by
  induction vs with
  | nil => rfl
  | cons v vs ih => rw [decodedAll, ih, List.map_cons]

theorem allWellFormed_iff {elemType : MetadataType} {vs : List Value} :
    allWellFormed elemType vs = true ↔
      ∀ v ∈ vs, v.type = elemType ∧ v.wellFormed = true := by
  induction vs with
  | nil => simp [allWellFormed]
  | cons v vs ih => simp [allWellFormed, ih, and_assoc]

end Value

/-- The element types that tensors are loaded with. -/
inductive StoredType where
  | f32
  | f16
  | bf16
  | i8
deriving DecidableEq, Repr

namespace StoredType

/-- The type's number in a file. -/
def code : StoredType → UInt32
  | .f32 => 0
  | .f16 => 1
  | .bf16 => 30
  | .i8 => 23

def dtype : StoredType → DType
  | .f32 => .fp32
  | .f16 => .fp16
  | .bf16 => .bf16
  | .i8 => .int8

end StoredType

/-- A tensor of a header, with its dimensions innermost first. -/
structure TensorEntry where
  name : String
  dims : List UInt64
  type : StoredType
  offset : UInt64

namespace TensorEntry

def encodeDims (dims : List UInt64) : List UInt8 := (dims.map fun d => toBytes 8 d.toNat).flatten

def encode (t : TensorEntry) : List UInt8 :=
  encodeString t.name ++ (toBytes 4 t.dims.length ++ (encodeDims t.dims ++
    (toBytes 4 t.type.code.toNat ++ toBytes 8 t.offset.toNat)))

/-- What the parser makes of the tensor: its dimensions are reversed. -/
def decoded (t : TensorEntry) : TensorInfo where
  name := t.name
  shape := (t.dims.map UInt64.toNat).reverse
  dtype := t.type.dtype
  offset := t.offset
  ggufDtype := t.type.code

def wellFormed (t : TensorEntry) : Bool :=
  (utf8 t.name).length < 2 ^ 64 && t.dims.length < 2 ^ 32

end TensorEntry

/-- What a header says. -/
structure Header where
  metadata : List (String × Value)
  tensors : List TensorEntry

namespace Header

def encodeEntry (entry : String × Value) : List UInt8 :=
  encodeString entry.1 ++ (toBytes 4 entry.2.type.code.toNat ++ entry.2.encode)

def encode (h : Header) : List UInt8 :=
  toBytes 4 ggufMagic.toNat ++ (toBytes 4 ggufVersion.toNat ++ (toBytes 8 h.tensors.length ++
    (toBytes 8 h.metadata.length ++ ((h.metadata.map encodeEntry).flatten ++
      (h.tensors.map TensorEntry.encode).flatten))))

/-- The entries of the metadata as the parser returns them. -/
def entries (h : Header) : List (String × MetadataValue) :=
  h.metadata.map fun entry => (entry.1, entry.2.decoded)

/-- Keys are distinct, and every length fits its field. -/
structure WellFormed (h : Header) : Prop where
  nodup : (h.metadata.map Prod.fst).Nodup
  entries : ∀ entry ∈ h.metadata,
    (utf8 entry.1).length < 2 ^ 64 ∧ entry.2.wellFormed = true
  tensors : ∀ t ∈ h.tensors, t.wellFormed = true
  metadata_lt : h.metadata.length < 2 ^ 64
  tensors_lt : h.tensors.length < 2 ^ 64

end Header

/-! ## Numbers and strings -/

theorem reads_readExact (xs : List UInt8) : Reads (readExact xs.length) xs xs := by
  intro rest
  have hle : xs.length ≤ (xs ++ rest).length := by
    rw [List.length_append]
    omega
  rw [readExact, if_pos hle, List.take_left, List.drop_left]

theorem reads_readLe {width n : ℕ} (h : n < 256 ^ width) :
    Reads (readLe width) (toBytes width n) n := by
  have hread := (reads_readExact (toBytes width n)).map ofBytes
  rwa [length_toBytes, ofBytes_toBytes h] at hread

theorem reads_readU8 (v : UInt8) : Reads readU8 (toBytes 1 v.toNat) v := by
  have hlt : v.toNat < 256 ^ 1 := v.toNat_lt
  have hread := (reads_readLe hlt).map UInt8.ofNat
  rwa [UInt8.ofNat_toNat] at hread

theorem reads_readU16 (v : UInt16) : Reads readU16 (toBytes 2 v.toNat) v := by
  have hlt : v.toNat < 256 ^ 2 := v.toNat_lt
  have hread := (reads_readLe hlt).map UInt16.ofNat
  rwa [UInt16.ofNat_toNat] at hread

theorem reads_readU32 (v : UInt32) : Reads readU32 (toBytes 4 v.toNat) v := by
  have hlt : v.toNat < 256 ^ 4 := v.toNat_lt
  have hread := (reads_readLe hlt).map UInt32.ofNat
  rwa [UInt32.ofNat_toNat] at hread

theorem reads_readU64 (v : UInt64) : Reads readU64 (toBytes 8 v.toNat) v := by
  have hlt : v.toNat < 256 ^ 8 := v.toNat_lt
  have hread := (reads_readLe hlt).map UInt64.ofNat
  rwa [UInt64.ofNat_toNat] at hread

/-- A length that fits its field. -/
theorem reads_length {n : ℕ} (h : n < 2 ^ 64) :
    Reads readU64 (toBytes 8 n) (UInt64.ofNat n) ∧ (UInt64.ofNat n).toNat = n := by
  have hn : (UInt64.ofNat n).toNat = n := UInt64.toNat_ofNat_of_lt' h
  have hread := reads_readU64 (UInt64.ofNat n)
  rw [hn] at hread
  exact ⟨hread, hn⟩

variable (utf8Error : List UInt8 → String)

theorem fromUtf8_utf8 (s : String) : fromUtf8 utf8Error (utf8 s) = .ok s := by
  have hbytes : (⟨(utf8 s).toArray⟩ : ByteArray) = s.toByteArray := by
    rw [utf8, Array.toArray_toList]
    rfl
  have hvalid : String.fromUTF8? s.toByteArray = some s := dif_pos s.isValidUTF8
  rw [fromUtf8, hbytes, hvalid]

theorem reads_readGgufString {s : String} (h : (utf8 s).length < 2 ^ 64) :
    Reads (readGgufString utf8Error) (encodeString s) s := by
  obtain ⟨hlen, hn⟩ := reads_length h
  intro rest
  have henough : ¬ (utf8 s ++ rest).length < (UInt64.ofNat (utf8 s).length).toNat := by
    rw [hn, List.length_append]
    omega
  have hread := reads_readExact (utf8 s) rest
  rw [encodeString, List.append_assoc, readGgufString, bind_of_ok (hlen _)]
  rw [bind_of_ok (show remaining (utf8 s ++ rest) = .ok (_, _) from rfl)]
  rw [if_neg henough, hn, bind_of_ok hread, fromUtf8_utf8]
  rfl

/-! ## Values -/

theorem fromU32_code (t : MetadataType) : MetadataType.fromU32 t.code = .ok t := by
  cases t <;> rfl

variable {v : Value}

theorem depth_pos (v : Value) : 0 < v.depth := by
  cases v <;> simp [Value.depth]

variable {stack : ℕ}

/-- A call of the reader on the value's bytes, with a stack for the calls
inside it. -/
theorem reads_readTypedValue (hwf : v.wellFormed = true) (hstack : v.depth ≤ stack) :
    Reads (readTypedValue utf8Error stack v.type) v.encode v.decoded := by
  induction stack generalizing v with
  | zero => exact absurd (depth_pos v) (Nat.not_lt.2 hstack)
  | succ stack ih =>
    rw [readTypedValue]
    cases v with
    | uint8 v => exact (reads_readU8 v).map _
    | int8 v =>
      have hread := (reads_readU8 v.toUInt8).map fun u => MetadataValue.int8 u.toInt8
      rwa [Int8.toInt8_toUInt8] at hread
    | uint16 v => exact (reads_readU16 v).map _
    | int16 v =>
      have hread := (reads_readU16 v.toUInt16).map fun u => MetadataValue.int16 u.toInt16
      rwa [Int16.toInt16_toUInt16] at hread
    | uint32 v => exact (reads_readU32 v).map _
    | int32 v =>
      have hread := (reads_readU32 v.toUInt32).map fun u => MetadataValue.int32 u.toInt32
      rwa [Int32.toInt32_toUInt32] at hread
    | float32 bits => exact (reads_readU32 bits).map _
    | bool v =>
      cases v with
      | false => exact (reads_readU8 0).map _
      | true => exact (reads_readU8 1).map _
    | string s =>
      have hlen : (utf8 s).length < 2 ^ 64 := of_decide_eq_true hwf
      exact (reads_readGgufString utf8Error hlen).map _
    | uint64 v => exact (reads_readU64 v).map _
    | int64 v =>
      have hread := (reads_readU64 v.toUInt64).map fun u => MetadataValue.int64 u.toInt64
      rwa [Int64.toInt64_toUInt64] at hread
    | float64 bits => exact (reads_readU64 bits).map _
    | array elemType elems =>
      rw [Value.wellFormed, Bool.and_eq_true, decide_eq_true_eq, Value.allWellFormed_iff] at hwf
      obtain ⟨hlen, helems⟩ := hwf
      obtain ⟨hcount, hn⟩ := reads_length hlen
      rw [Value.depth, Nat.add_le_add_iff_right, Value.depthAll_le_iff] at hstack
      -- the elements are of the type the array names, and each is within the stack
      have hread : Reads (times elems.length (readTypedValue utf8Error stack elemType))
          (Value.encodeAll elems) (Value.decodedAll elems) := by
        rw [Value.encodeAll_eq, Value.decodedAll_eq]
        refine Reads.times elems Value.encode Value.decoded fun v hv => ?_
        obtain ⟨rfl, hv'⟩ := helems v hv
        exact ih hv' (hstack v hv)
      refine (reads_readU32 elemType.code).bind (Reads.lift (fromU32_code elemType) ?_)
      refine hcount.bind ?_
      rw [hn]
      exact hread.bind_pure MetadataValue.array

theorem reads_readMetadataValue (hwf : v.wellFormed = true) (hstack : v.depth ≤ stack) :
    Reads (readMetadataValue utf8Error stack) (toBytes 4 v.type.code.toNat ++ v.encode)
      v.decoded :=
  (reads_readU32 v.type.code).bind
    (Reads.lift (fromU32_code v.type) (reads_readTypedValue utf8Error hwf hstack))

/-! ## The tables -/

theorem reads_readEntry {entry : String × Value} (hkey : (utf8 entry.1).length < 2 ^ 64)
    (hwf : entry.2.wellFormed = true) (hstack : entry.2.depth ≤ stack) :
    Reads (readEntry utf8Error stack) (Header.encodeEntry entry) (entry.1, entry.2.decoded) := by
  refine (reads_readGgufString utf8Error hkey).bind ?_
  exact (reads_readMetadataValue utf8Error hwf hstack).bind_pure (entry.1, ·)

theorem dtype_of_code (t : StoredType) :
    ∃ g, GgufDType.fromU32 t.code = .ok g ∧ g.toFractureDtype = .ok t.dtype := by
  cases t with
  | f32 => exact ⟨.F32, rfl, rfl⟩
  | f16 => exact ⟨.F16, rfl, rfl⟩
  | bf16 => exact ⟨.Bf16, rfl, rfl⟩
  | i8 => exact ⟨.I8, rfl, rfl⟩

theorem reads_dims (dims : List UInt64) :
    Reads (times dims.length readU64) (TensorEntry.encodeDims dims) dims := by
  have hread := Reads.times dims (fun d => toBytes 8 d.toNat) id fun d _ => reads_readU64 d
  rwa [List.map_id] at hread

theorem reads_readTensorInfo {t : TensorEntry} (hwf : t.wellFormed = true) :
    Reads (readTensorInfo utf8Error) t.encode t.decoded := by
  rw [TensorEntry.wellFormed, Bool.and_eq_true, decide_eq_true_eq, decide_eq_true_eq] at hwf
  obtain ⟨hname, hdims⟩ := hwf
  obtain ⟨g, hcode, hdtype⟩ := dtype_of_code t.type
  have hcount : Reads readU32 (toBytes 4 t.dims.length) (UInt32.ofNat t.dims.length) := by
    have hread := reads_readU32 (UInt32.ofNat t.dims.length)
    rwa [UInt32.toNat_ofNat_of_lt' hdims] at hread
  refine (reads_readGgufString utf8Error hname).bind (hcount.bind ?_)
  rw [UInt32.toNat_ofNat_of_lt' hdims]
  refine (reads_dims t.dims).bind ((reads_readU32 t.type.code).bind ?_)
  refine Reads.lift hcode (Reads.lift hdtype ?_)
  exact (reads_readU64 t.offset).bind_pure _

/-- **The tables of a header are read from its bytes**, whatever follows. -/
theorem reads_readTables {h : Header} (hwf : h.WellFormed)
    (hstack : ∀ entry ∈ h.metadata, entry.2.depth ≤ stack) :
    Reads (readTables utf8Error stack) h.encode
      (insertAll h.entries, h.tensors.map TensorEntry.decoded) := by
  obtain ⟨htensors, htn⟩ := reads_length hwf.tensors_lt
  obtain ⟨hentries, hen⟩ := reads_length hwf.metadata_lt
  refine (reads_readU32 ggufMagic).bind ?_
  rw [if_neg (not_not.2 rfl)]
  refine (reads_readU32 ggufVersion).bind ?_
  rw [if_neg (not_not.2 rfl)]
  refine htensors.bind (hentries.bind ?_)
  rw [htn, hen]
  refine Reads.bind (a := h.entries) ?_ ?_
  · refine Reads.times h.metadata Header.encodeEntry (fun entry => (entry.1, entry.2.decoded)) ?_
    intro entry hmem
    obtain ⟨hkey, hvalue⟩ := hwf.entries entry hmem
    exact reads_readEntry utf8Error hkey hvalue (hstack entry hmem)
  · have hread := Reads.times h.tensors TensorEntry.encode TensorEntry.decoded fun t ht =>
      reads_readTensorInfo utf8Error (hwf.tensors t ht)
    exact hread.bind_pure _

/-! ## The header -/

section

variable {entries : List (String × MetadataValue)} (hnodup : (entries.map Prod.fst).Nodup)
  (key : String) (value : MetadataValue)
include hnodup key value

end

section

variable {F : Type} (f64 : F64 F)

/-- A header that was parsed is made of the tables of the input. -/
theorem tables_of_parse {bytes : List UInt8} {header : GgufHeader F}
    (h : parseHeaderBytes f64 utf8Error stack bytes = .ok header) :
    ∃ rest, readTables utf8Error stack bytes = .ok ((header.metadata, header.tensors), rest) ∧
      header.tensorDataOffset =
        alignOffset (bytes.length - rest.length) (getAlignment header.metadata) := by
  obtain ⟨⟨⟨metadata, tensors⟩, rest⟩, htables, h⟩ := except_bind_eq_ok.1 h
  obtain ⟨config, -, h⟩ := except_bind_eq_ok.1 h
  cases h
  exact ⟨rest, htables, rfl⟩

/-- What the parser returns for the bytes of a header. -/
theorem parse_encode {h : Header} (hwf : h.WellFormed)
    (hstack : ∀ entry ∈ h.metadata, entry.2.depth ≤ stack) {config : ModelConfig F}
    (hconfig : extractModelConfig f64 (insertAll h.entries) = .ok config)
    (trailing : List UInt8) :
    parseHeaderBytes f64 utf8Error stack (h.encode ++ trailing) = .ok
      { config
        metadata := insertAll h.entries
        tensors := h.tensors.map TensorEntry.decoded
        tensorDataOffset :=
          alignOffset h.encode.length (getAlignment (insertAll h.entries)) } := by
  have hend : (h.encode ++ trailing).length - trailing.length = h.encode.length := by
    rw [List.length_append]
    omega
  rw [parseHeaderBytes, reads_readTables utf8Error hwf hstack trailing]
  dsimp only [bind, Except.bind]
  rw [hconfig, hend]

end

/-! ## Arrays in arrays -/

variable {F : Type} (f64 : F64 F)

variable (alignment : UInt32) (padding : ℕ) (tensors : List TensorEntry)

/-! ## Small headers -/

/-- The header of a small model, with an alignment, so many bytes of padding
and some tensors. -/
def smallHeader : Header where
  metadata :=
    [("general.alignment", .uint32 alignment),
      ("llama.embedding_length", .uint32 8),
      ("llama.block_count", .uint32 1),
      ("llama.attention.head_count", .uint32 2),
      ("llama.attention.head_count_kv", .uint32 2),
      ("llama.feed_forward_length", .uint32 8),
      ("llama.vocab_size", .uint64 4),
      ("padding", .array .uint8 (List.replicate padding (.uint8 0)))]
  tensors

theorem wellFormed_smallHeader {alignment : UInt32} {padding : ℕ} {tensors : List TensorEntry}
    (hpadding : padding < 2 ^ 64) (htensors : ∀ t ∈ tensors, t.wellFormed = true)
    (hcount : tensors.length < 2 ^ 64) :
    (smallHeader alignment padding tensors).WellFormed where
  nodup := by
    change ["general.alignment", "llama.embedding_length", "llama.block_count",
      "llama.attention.head_count", "llama.attention.head_count_kv", "llama.feed_forward_length",
      "llama.vocab_size", "padding"].Nodup
    decide
  entries := by
    have harray : (Value.array .uint8 (List.replicate padding (.uint8 0))).wellFormed = true := by
      rw [Value.wellFormed, Bool.and_eq_true, decide_eq_true_eq, Value.allWellFormed_iff,
        List.length_replicate]
      refine ⟨hpadding, fun v hv => ?_⟩
      rw [List.eq_of_mem_replicate hv]
      exact ⟨rfl, rfl⟩
    intro entry hmem
    simp only [smallHeader, List.mem_cons, List.not_mem_nil, or_false] at hmem
    rcases hmem with rfl | rfl | rfl | rfl | rfl | rfl | rfl | rfl
    case inr.inr.inr.inr.inr.inr.inr => exact ⟨by dsimp only; decide, harray⟩
    all_goals exact ⟨by dsimp only; decide, rfl⟩
  tensors := htensors
  metadata_lt := by
    change 8 < 2 ^ 64
    decide
  tensors_lt := hcount

theorem depth_smallHeader :
    ∀ entry ∈ (smallHeader alignment padding tensors).metadata, entry.2.depth ≤ 2 := by
  have hpad : Value.depthAll (List.replicate padding (.uint8 0)) ≤ 1 :=
    Value.depthAll_le_iff.2 fun v hv => by
      rw [List.eq_of_mem_replicate hv]
      exact Nat.le_refl 1
  simp only [smallHeader, List.forall_mem_cons, Value.depth]
  simp [hpad]

theorem alignment_smallHeader :
    getAlignment (insertAll (smallHeader alignment padding tensors).entries) =
      alignment.toNat := rfl

/-- The configuration of a small header is valid. -/
theorem config_smallHeader {F : Type} {f64 : F64 F} (hf : f64.Lawful) (alignment : UInt32)
    (padding : ℕ) (tensors : List TensorEntry) :
    ∃ config, extractModelConfig f64
      (insertAll (smallHeader alignment padding tensors).entries) = .ok config := by
  have hθ := hf.pos 500000 (by norm_num)
  have hε := hf.pos (1 / 100000) le_rfl
  generalize hm : insertAll (smallHeader alignment padding tensors).entries = metadata
  -- what the entries say under the keys that are asked for
  have harch : metadata.lookup "general.architecture" = none := by rw [← hm]; rfl
  have hhidden : getU32 metadata (toString "llama" ++ toString ".embedding_length") = .ok 8 := by
    rw [← hm]; rfl
  have hlayers : getU32 metadata (toString "llama" ++ toString ".block_count") = .ok 1 := by
    rw [← hm]; rfl
  have hq : getU32 metadata (toString "llama" ++ toString ".attention.head_count") = .ok 2 := by
    rw [← hm]; rfl
  have hkv : getU32 metadata (toString "llama" ++ toString ".attention.head_count_kv") =
      .ok 2 := by
    rw [← hm]; rfl
  have hffn : getU32 metadata (toString "llama" ++ toString ".feed_forward_length") = .ok 8 := by
    rw [← hm]; rfl
  have hvocab : getVocabSize metadata "llama" = .ok 4 := by rw [← hm]; rfl
  have hrope : metadata.lookup (toString "llama" ++ toString ".rope.freq_base") = none := by
    rw [← hm]; rfl
  have heps : metadata.lookup
      (toString "llama" ++ toString ".attention.layer_norm_rms_epsilon") = none := by
    rw [← hm]; rfl
  have hctx : metadata.lookup (toString "llama" ++ toString ".context_length") = none := by
    rw [← hm]; rfl
  refine ⟨⟨8, 1, 2, 2, 4, 8, 4, f64.lit 500000, f64.lit (1 / 100000), 8192⟩, ?_⟩
  unfold extractModelConfig getF64
  rw [harch]
  simp only [Option.bind_none, Option.getD_none]
  rw [hhidden, except_ok_bind, hlayers, except_ok_bind, hq, except_ok_bind, hkv, except_ok_bind,
    hffn, except_ok_bind, hvocab, except_ok_bind, hrope, heps, hctx]
  have hvalid (eps : F) (heps : f64.le eps (f64.lit 0) = false) :
      ModelConfig.validate f64 ⟨8, 1, 2, 2, 4, 8, 4, f64.lit 500000, eps, 8192⟩ = .ok () := by
    simp [ModelConfig.validate, hθ, heps]
  rw [if_neg (by decide)]
  exact congrArg (· >>= fun _ => Except.ok _) (hvalid _ hε)

theorem length_encodeAll_replicate (n : ℕ) :
    (Value.encodeAll (List.replicate n (.uint8 0))).length = n := by
  induction n with
  | zero => rfl
  | succ n ih =>
    rw [List.replicate_succ, Value.encodeAll, List.length_append, ih, Value.encode, length_toBytes]
    omega

theorem length_smallHeader :
    (smallHeader alignment padding []).encode.length = 323 + padding := by
  have halign : (utf8 "general.alignment").length = 17 := by decide
  have hhidden : (utf8 "llama.embedding_length").length = 22 := by decide
  have hlayers : (utf8 "llama.block_count").length = 17 := by decide
  have hq : (utf8 "llama.attention.head_count").length = 26 := by decide
  have hkv : (utf8 "llama.attention.head_count_kv").length = 29 := by decide
  have hffn : (utf8 "llama.feed_forward_length").length = 25 := by decide
  have hvocab : (utf8 "llama.vocab_size").length = 16 := by decide
  have hpad : (utf8 "padding").length = 7 := by decide
  simp only [smallHeader, Header.encode, Header.encodeEntry, encodeString, Value.encode,
    length_encodeAll_replicate, halign, hhidden, hlayers, hq, hkv, hffn, hvocab, hpad,
    List.length_append, length_toBytes, List.map_cons, List.map_nil, List.flatten_cons,
    List.flatten_nil, List.length_nil]
  omega

end Fracture.Gguf
