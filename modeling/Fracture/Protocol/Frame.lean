import Fracture.Common.Endian
import Fracture.Common.Effect
import Fracture.Core.Error

/-!
# Frames

A message travels as a frame: a header of sixteen bytes, the payload, and a
checksum over both. The decoder reads one frame from the front of a byte
string. It accepts the encodings of frames within the size limit and
nothing else, and on any other bytes it returns an error.

The checksum function is a parameter throughout.
-/

namespace Fracture

open Effect BigEndian

inductive MessageType where
  | register
  | registerAck
  | forward
  | forwardResult
  | heartbeat
  | heartbeatAck
  | cacheAlloc
  | cacheFree
  | shutdown
  | error
  | cacheAllocAck
  | batchedForward
  | batchedForwardResult
  | workerReady
  | reconfigure
  | electionStart
  | electionChallenge
  | victory
  | clusterManifest
  | reRegister
  | leaveIntent
  | whoIsCoordinator
  | whoIsCoordinatorResponse
deriving DecidableEq, Repr

/-- A number in upper case hexadecimal, filled with zeros to a width. -/
def hexText (width n : ℕ) : String :=
  let digits := (Nat.toDigits 16 n).map Char.toUpper
  String.ofList (List.replicate (width - digits.length) '0' ++ digits)

namespace MessageType

/-- The type's byte in a header. -/
def asU8 : MessageType → UInt8
  | .register => 0x01
  | .registerAck => 0x02
  | .forward => 0x03
  | .forwardResult => 0x04
  | .heartbeat => 0x05
  | .heartbeatAck => 0x06
  | .cacheAlloc => 0x07
  | .cacheFree => 0x08
  | .shutdown => 0x09
  | .error => 0x0A
  | .cacheAllocAck => 0x0B
  | .batchedForward => 0x0C
  | .batchedForwardResult => 0x0D
  | .workerReady => 0x0E
  | .reconfigure => 0x0F
  | .electionStart => 0x10
  | .electionChallenge => 0x11
  | .victory => 0x12
  | .clusterManifest => 0x13
  | .reRegister => 0x14
  | .leaveIntent => 0x15
  | .whoIsCoordinator => 0x16
  | .whoIsCoordinatorResponse => 0x17

def fromU8 (v : UInt8) : Except Fault MessageType :=
  match v.toNat with
  | 0x01 => .ok .register
  | 0x02 => .ok .registerAck
  | 0x03 => .ok .forward
  | 0x04 => .ok .forwardResult
  | 0x05 => .ok .heartbeat
  | 0x06 => .ok .heartbeatAck
  | 0x07 => .ok .cacheAlloc
  | 0x08 => .ok .cacheFree
  | 0x09 => .ok .shutdown
  | 0x0A => .ok .error
  | 0x0B => .ok .cacheAllocAck
  | 0x0C => .ok .batchedForward
  | 0x0D => .ok .batchedForwardResult
  | 0x0E => .ok .workerReady
  | 0x0F => .ok .reconfigure
  | 0x10 => .ok .electionStart
  | 0x11 => .ok .electionChallenge
  | 0x12 => .ok .victory
  | 0x13 => .ok .clusterManifest
  | 0x14 => .ok .reRegister
  | 0x15 => .ok .leaveIntent
  | 0x16 => .ok .whoIsCoordinator
  | 0x17 => .ok .whoIsCoordinatorResponse
  | n =>
    let text := hexText 2 n
    err (.protocol s!"unknown message type: 0x{text}")

end MessageType

structure FrameHeader where
  msgType : MessageType
  seqId : UInt64
  payloadLen : UInt32
deriving DecidableEq, Repr

def magic : List UInt8 := [0x46, 0x52]

def version : UInt8 := 0x01

def headerSize : ℕ := 16

def crcSize : ℕ := 4

/-- 256 MB. -/
def maxPayloadSize : UInt32 := 256 * 1024 * 1024

/-- A part of a byte string; a panic where its ends are not within. -/
def slice (xs : List UInt8) (start stop : ℕ) : Except Fault (List UInt8) :=
  if start ≤ stop ∧ stop ≤ xs.length then .ok ((xs.take stop).drop start)
  else .error (.panicked .indexOutOfBounds)

/-- A `usize` addition that reports overflow. -/
def checkedAdd (a b : ℕ) : Option ℕ := if a + b < 2 ^ 64 then some (a + b) else none

def encodeHeader (header : FrameHeader) : List UInt8 :=
  magic ++ [version, header.msgType.asU8] ++ toBytes 8 header.seqId.toNat ++
    toBytes 4 header.payloadLen.toNat

/-- Decodes the sixteen bytes of a header. -/
def decodeHeader (buf : List UInt8) : Except Fault FrameHeader := do
  let b0 ← index buf 0
  let b1 ← index buf 1
  let b2 ← index buf 2
  let b3 ← index buf 3
  if [b0, b1] ≠ magic then
    let hex0 := hexText 2 b0.toNat
    let hex1 := hexText 2 b1.toNat
    err (.protocol s!"invalid magic: 0x{hex0}{hex1}, expected 0x4652")
  else if b2 ≠ version then
    err (.protocol s!"unsupported protocol version: {b2}, expected {version}")
  else
    let msgType ← MessageType.fromU8 b3
    let seqBytes ← slice buf 4 12
    let lenBytes ← slice buf 12 16
    let payloadLen := UInt32.ofNat (ofBytes lenBytes)
    if maxPayloadSize < payloadLen then
      err (.protocol s!"payload length {payloadLen} exceeds maximum {maxPayloadSize}")
    else .ok { msgType, seqId := UInt64.ofNat (ofBytes seqBytes), payloadLen }

variable (crc32c : List UInt8 → UInt32)

def encodeFrame (header : FrameHeader) (payload : List UInt8) : List UInt8 :=
  let buf := encodeHeader header ++ payload
  buf ++ toBytes 4 (crc32c buf).toNat

def verifyCrc (headerAndPayload : List UInt8) (expectedCrc : UInt32) : Except Fault Unit :=
  let actual := crc32c headerAndPayload
  if actual ≠ expectedCrc then
    let expected := hexText 8 expectedCrc.toNat
    let got := hexText 8 actual.toNat
    err (.protocol s!"CRC32C mismatch: expected 0x{expected}, got 0x{got}")
  else .ok ()

/-- The frame at the front of a byte string: its header and payload. -/
def decodeFrameFromBytes (bytes : List UInt8) : Except Fault (FrameHeader × List UInt8) :=
  let len := bytes.length
  if len < headerSize then
    err (.protocol s!"frame truncated: need {headerSize} header bytes, got {len}")
  else do
    let hdrBuf ← slice bytes 0 headerSize
    let header ← decodeHeader hdrBuf
    let payloadLen := header.payloadLen.toNat
    match (checkedAdd headerSize payloadLen).bind fun n => checkedAdd n crcSize with
    | none => err (.protocol "frame size arithmetic overflow")
    | some frameEnd =>
      if len < frameEnd then
        err (.protocol
          s!"frame truncated: need {frameEnd} bytes (header + {payloadLen} payload + crc), got {len}")
      else do
        let payloadEnd := headerSize + payloadLen
        let payload ← slice bytes headerSize payloadEnd
        let crcBytes ← slice bytes payloadEnd (payloadEnd + crcSize)
        let checked ← slice bytes 0 payloadEnd
        verifyCrc crc32c checked (UInt32.ofNat (ofBytes crcBytes))
        .ok (header, payload)

/-! ## Parts of a byte string -/

theorem slice_append {xs ys : List UInt8} (zs : List UInt8) {start stop : ℕ}
    (hstart : xs.length = start) (hstop : start + ys.length = stop) :
    slice (xs ++ (ys ++ zs)) start stop = .ok ys := by
  subst hstart hstop
  have hwithin : xs.length ≤ xs.length + ys.length ∧
      xs.length + ys.length ≤ (xs ++ (ys ++ zs)).length := by
    simp only [List.length_append]
    omega
  have htake : (xs ++ (ys ++ zs)).take (xs.length + ys.length) = xs ++ ys := by
    rw [← List.append_assoc, ← List.length_append, List.take_left]
  rw [slice, if_pos hwithin, htake, List.drop_left]

theorem slice_zero {ys : List UInt8} (zs : List UInt8) {stop : ℕ} (hstop : ys.length = stop) :
    slice (ys ++ zs) 0 stop = .ok ys := by
  have hfront : 0 + ys.length = stop := by rw [Nat.zero_add, hstop]
  have hslice := slice_append zs List.length_nil hfront
  rwa [List.nil_append] at hslice

/-- A byte string of at least a length begins with so many bytes. -/
theorem exists_append_of_le {bytes : List UInt8} {n : ℕ} (h : n ≤ bytes.length) :
    ∃ xs ys, bytes = xs ++ ys ∧ xs.length = n :=
  ⟨bytes.take n, bytes.drop n, (List.take_append_drop n bytes).symm, List.length_take_of_le h⟩

/-! ## Headers -/

theorem MessageType.fromU8_asU8 (t : MessageType) : fromU8 t.asU8 = .ok t := by
  cases t <;> rfl

/-- A byte is that of a type, or it is refused. -/
theorem MessageType.fromU8_cases (v : UInt8) :
    (∃ t, t.asU8 = v ∧ fromU8 v = .ok t) ∨ ∃ msg, fromU8 v = err (.protocol msg) := by
  unfold fromU8
  split
  case h_24 => exact .inr ⟨_, rfl⟩
  -- a listed number is the byte of its type
  all_goals
    rename_i hv
    refine .inl ⟨_, ?_, rfl⟩
    exact UInt8.toNat_inj.1 hv.symm

theorem length_encodeHeader (h : FrameHeader) : (encodeHeader h).length = headerSize := by
  simp [encodeHeader, magic, headerSize]

theorem seqId_ofBytes_toBytes (n : UInt64) : UInt64.ofNat (ofBytes (toBytes 8 n.toNat)) = n := by
  rw [ofBytes_toBytes_of_lt n.toNat_lt, UInt64.ofNat_toNat]

theorem u32_ofBytes_toBytes (n : UInt32) : UInt32.ofNat (ofBytes (toBytes 4 n.toNat)) = n := by
  rw [ofBytes_toBytes_of_lt n.toNat_lt, UInt32.ofNat_toNat]

theorem toBytes_seqId_ofBytes {bs : List UInt8} (h : bs.length = 8) :
    toBytes 8 (UInt64.ofNat (ofBytes bs)).toNat = bs := by
  have hlt : ofBytes bs < 2 ^ 64 := by
    have := ofBytes_lt bs
    rwa [h] at this
  rw [UInt64.toNat_ofNat_of_lt' hlt, ← h, toBytes_ofBytes]

theorem toBytes_u32_ofBytes {bs : List UInt8} (h : bs.length = 4) :
    toBytes 4 (UInt32.ofNat (ofBytes bs)).toNat = bs := by
  have hlt : ofBytes bs < 2 ^ 32 := by
    have := ofBytes_lt bs
    rwa [h] at this
  rw [UInt32.toNat_ofNat_of_lt' hlt, ← h, toBytes_ofBytes]

theorem slice_encodeHeader_seqId (h : FrameHeader) :
    slice (encodeHeader h) 4 12 = .ok (toBytes 8 h.seqId.toNat) := by
  have hstart : (magic ++ [version, h.msgType.asU8]).length = 4 := by simp [magic]
  have hstop : 4 + (toBytes 8 h.seqId.toNat).length = 12 := by rw [length_toBytes]
  rw [encodeHeader, List.append_assoc, slice_append _ hstart hstop]

theorem slice_encodeHeader_payloadLen (h : FrameHeader) :
    slice (encodeHeader h) 12 16 = .ok (toBytes 4 h.payloadLen.toNat) := by
  have hstart : (magic ++ [version, h.msgType.asU8] ++ toBytes 8 h.seqId.toNat).length = 12 := by
    simp [magic]
  have hstop : 12 + (toBytes 4 h.payloadLen.toNat).length = 16 := by rw [length_toBytes]
  have hall := slice_append [] hstart hstop
  rwa [List.append_nil] at hall

theorem decodeHeader_encodeHeader {h : FrameHeader} (hmax : h.payloadLen ≤ maxPayloadSize) :
    decodeHeader (encodeHeader h) = .ok h := by
  have h0 : index (encodeHeader h) 0 = .ok 0x46 := rfl
  have h1 : index (encodeHeader h) 1 = .ok 0x52 := rfl
  have h2 : index (encodeHeader h) 2 = .ok version := rfl
  have h3 : index (encodeHeader h) 3 = .ok h.msgType.asU8 := rfl
  have hmagic : ¬ [0x46, 0x52] ≠ magic := not_not.2 rfl
  have hversion : ¬ version ≠ version := not_not.2 rfl
  have hfits : ¬ maxPayloadSize < h.payloadLen := UInt32.not_lt.2 hmax
  unfold decodeHeader
  rw [h0, except_ok_bind, h1, except_ok_bind, h2, except_ok_bind, h3, except_ok_bind,
    if_neg hmagic, if_neg hversion, MessageType.fromU8_asU8, except_ok_bind,
    slice_encodeHeader_seqId, except_ok_bind, slice_encodeHeader_payloadLen, except_ok_bind]
  dsimp only
  rw [u32_ofBytes_toBytes, seqId_ofBytes_toBytes, if_neg hfits]

/-- Sixteen bytes are the header of a frame within the limit, or refused. -/
theorem decodeHeader_cases {buf : List UInt8} (hbuf : buf.length = headerSize) :
    (∃ h : FrameHeader, h.payloadLen ≤ maxPayloadSize ∧ buf = encodeHeader h) ∨
      ∃ msg, decodeHeader buf = err (.protocol msg) := by
  obtain ⟨b0, b1, b2, b3, rest, rfl⟩ : ∃ b0 b1 b2 b3 rest, buf = b0 :: b1 :: b2 :: b3 :: rest := by
    match buf, hbuf with
    | b0 :: b1 :: b2 :: b3 :: rest, _ => exact ⟨b0, b1, b2, b3, rest, rfl⟩
  have hrest : rest.length = 12 := by
    simp only [List.length_cons, headerSize] at hbuf
    omega
  have hlong : 8 ≤ rest.length := by omega
  obtain ⟨seq, len, rfl, hseq⟩ := exists_append_of_le hlong
  have hlen : len.length = 4 := by
    rw [List.length_append] at hrest
    omega
  have h0 : index (b0 :: b1 :: b2 :: b3 :: (seq ++ len)) 0 = .ok b0 := rfl
  have h1 : index (b0 :: b1 :: b2 :: b3 :: (seq ++ len)) 1 = .ok b1 := rfl
  have h2 : index (b0 :: b1 :: b2 :: b3 :: (seq ++ len)) 2 = .ok b2 := rfl
  have h3 : index (b0 :: b1 :: b2 :: b3 :: (seq ++ len)) 3 = .ok b3 := rfl
  unfold decodeHeader
  rw [h0, except_ok_bind, h1, except_ok_bind, h2, except_ok_bind, h3, except_ok_bind]
  by_cases hmagic : [b0, b1] ≠ magic
  · rw [if_pos hmagic]
    exact .inr ⟨_, rfl⟩
  by_cases hversion : b2 ≠ version
  · rw [if_neg hmagic, if_pos hversion]
    exact .inr ⟨_, rfl⟩
  rw [if_neg hmagic, if_neg hversion]
  rcases MessageType.fromU8_cases b3 with ⟨t, rfl, htype⟩ | ⟨msg, htype⟩
  · -- what is left are the bytes of a header, which can only be too long
    have hbytes : b0 :: b1 :: b2 :: t.asU8 :: (seq ++ len) = encodeHeader
        ⟨t, UInt64.ofNat (ofBytes seq), UInt32.ofNat (ofBytes len)⟩ := by
      rw [encodeHeader, toBytes_seqId_ofBytes hseq, toBytes_u32_ofBytes hlen, ← not_not.1 hmagic,
        ← not_not.1 hversion]
      simp
    by_cases hlong : maxPayloadSize < UInt32.ofNat (ofBytes len)
    case neg => exact .inl ⟨_, UInt32.not_lt.1 hlong, hbytes⟩
    rw [htype, except_ok_bind, hbytes, slice_encodeHeader_seqId, except_ok_bind,
      slice_encodeHeader_payloadLen, except_ok_bind]
    dsimp only
    rw [u32_ofBytes_toBytes, if_pos hlong]
    exact .inr ⟨_, rfl⟩
  · rw [htype]
    exact .inr ⟨msg, rfl⟩

/-! ## Frames -/

section

variable {crc32c : List UInt8 → UInt32}

theorem verifyCrc_eq_ok {bytes : List UInt8} {crc : UInt32} (h : crc32c bytes = crc) :
    verifyCrc crc32c bytes crc = .ok () := by
  rw [verifyCrc, h]
  exact if_neg (not_not.2 rfl)

theorem verifyCrc_eq_err {bytes : List UInt8} {crc : UInt32} (h : crc32c bytes ≠ crc) :
    ∃ msg, verifyCrc crc32c bytes crc = err (.protocol msg) :=
  ⟨_, if_pos h⟩

/-- The size of a frame does not overflow. -/
theorem frameEnd_eq (n : UInt32) :
    ((checkedAdd headerSize n.toNat).bind fun m => checkedAdd m crcSize) =
      some (headerSize + n.toNat + crcSize) := by
  have hn : n.toNat < 2 ^ 32 := n.toNat_lt
  have hfirst : headerSize + n.toNat < 2 ^ 64 := by
    unfold headerSize
    omega
  have hsecond : headerSize + n.toNat + crcSize < 2 ^ 64 := by
    unfold headerSize crcSize
    omega
  rw [checkedAdd, if_pos hfirst, Option.bind_some, checkedAdd, if_pos hsecond]

section

variable {hdr : List UInt8} {h : FrameHeader}

theorem decodeFrame_badHeader (rest : List UInt8) (hhdr : hdr.length = headerSize) {msg : String}
    (hdec : decodeHeader hdr = err (.protocol msg)) :
    decodeFrameFromBytes crc32c (hdr ++ rest) = err (.protocol msg) := by
  have hlong : ¬ (hdr ++ rest).length < headerSize := by
    rw [List.length_append]
    omega
  unfold decodeFrameFromBytes
  dsimp only
  rw [if_neg hlong, slice_zero rest hhdr, except_ok_bind, hdec]
  rfl

theorem decodeFrame_truncated {rest : List UInt8} (hhdr : hdr.length = headerSize)
    (hdec : decodeHeader hdr = .ok h) (hrest : rest.length < h.payloadLen.toNat + crcSize) :
    ∃ msg, decodeFrameFromBytes crc32c (hdr ++ rest) = err (.protocol msg) := by
  have hlen : (hdr ++ rest).length = headerSize + rest.length := by
    rw [List.length_append, hhdr]
  have hlong : ¬ (hdr ++ rest).length < headerSize := by omega
  have hshort : (hdr ++ rest).length < headerSize + h.payloadLen.toNat + crcSize := by omega
  unfold decodeFrameFromBytes
  dsimp only
  rw [if_neg hlong, slice_zero rest hhdr, except_ok_bind, hdec, except_ok_bind, frameEnd_eq]
  dsimp only
  rw [if_pos hshort]
  exact ⟨_, rfl⟩

/-- A header with its payload and a checksum after it is a frame if the
checksum is right. -/
theorem decodeFrame_append {payload crc : List UInt8} (rest : List UInt8)
    (hhdr : hdr.length = headerSize) (hdec : decodeHeader hdr = .ok h)
    (hpayload : payload.length = h.payloadLen.toNat) (hcrc : crc.length = crcSize) :
    decodeFrameFromBytes crc32c (hdr ++ (payload ++ (crc ++ rest))) =
      (verifyCrc crc32c (hdr ++ payload) (UInt32.ofNat (ofBytes crc)) >>=
        fun _ => .ok (h, payload)) := by
  have hlen : (hdr ++ (payload ++ (crc ++ rest))).length =
      headerSize + h.payloadLen.toNat + crcSize + rest.length := by
    simp only [List.length_append]
    omega
  have hlong : ¬ (hdr ++ (payload ++ (crc ++ rest))).length < headerSize := by omega
  have hwhole : ¬ (hdr ++ (payload ++ (crc ++ rest))).length <
      headerSize + h.payloadLen.toNat + crcSize := by omega
  have hend : (hdr ++ payload).length = headerSize + h.payloadLen.toNat := by
    rw [List.length_append, hhdr, hpayload]
  have hslice := slice_append (crc ++ rest) hhdr (congrArg (headerSize + ·) hpayload)
  have hcheck := slice_append rest hend (congrArg (headerSize + h.payloadLen.toNat + ·) hcrc)
  have hall := slice_zero (crc ++ rest) hend
  rw [List.append_assoc] at hcheck hall
  unfold decodeFrameFromBytes
  dsimp only
  rw [if_neg hlong, slice_zero _ hhdr, except_ok_bind, hdec, except_ok_bind, frameEnd_eq]
  dsimp only
  rw [if_neg hwhole, hslice, except_ok_bind, hcheck, except_ok_bind, hall, except_ok_bind]

theorem decodeFrame_encodeFrame {payload : List UInt8} (rest : List UInt8)
    (hlen : payload.length = h.payloadLen.toNat) (hmax : h.payloadLen ≤ maxPayloadSize) :
    decodeFrameFromBytes crc32c (encodeFrame crc32c h payload ++ rest) = .ok (h, payload) := by
  have hcrc : (toBytes 4 (crc32c (encodeHeader h ++ payload)).toNat).length = crcSize :=
    length_toBytes _ _
  have hframe : encodeFrame crc32c h payload ++ rest = encodeHeader h ++ (payload ++
      (toBytes 4 (crc32c (encodeHeader h ++ payload)).toNat ++ rest)) := by
    simp only [encodeFrame, List.append_assoc]
  rw [hframe, decodeFrame_append rest (length_encodeHeader h) (decodeHeader_encodeHeader hmax)
    hlen hcrc, verifyCrc_eq_ok (u32_ofBytes_toBytes _).symm, except_ok_bind]

/-- Bytes that no frame within the limit is in front of are refused. -/
theorem decodeFrame_eq_err {bytes : List UInt8}
    (hnone : ∀ (h : FrameHeader) (payload : List UInt8), payload.length = h.payloadLen.toNat →
      h.payloadLen ≤ maxPayloadSize → ¬ encodeFrame crc32c h payload <+: bytes) :
    ∃ msg, decodeFrameFromBytes crc32c bytes = err (.protocol msg) := by
  by_cases hshort : bytes.length < headerSize
  · exact ⟨_, if_pos hshort⟩
  obtain ⟨hdr, rest, rfl, hhdr⟩ := exists_append_of_le (Nat.not_lt.1 hshort)
  rcases decodeHeader_cases hhdr with ⟨h, hmax, rfl⟩ | ⟨msg, hmsg⟩
  · have hdec := decodeHeader_encodeHeader hmax
    by_cases hrest : rest.length < h.payloadLen.toNat + crcSize
    · exact decodeFrame_truncated hhdr hdec hrest
    obtain ⟨payload, rest, rfl, hpayload⟩ :=
      exists_append_of_le (Nat.le_of_add_right_le (Nat.not_lt.1 hrest))
    have hmore : crcSize ≤ rest.length := by
      rw [List.length_append] at hrest
      omega
    obtain ⟨crc, rest, rfl, hcrc⟩ := exists_append_of_le hmore
    rw [decodeFrame_append rest hhdr hdec hpayload hcrc]
    -- a right checksum would make this a frame
    have hwrong : crc32c (encodeHeader h ++ payload) ≠ UInt32.ofNat (ofBytes crc) := by
      intro hright
      refine hnone h payload hpayload hmax ⟨rest, ?_⟩
      simp only [encodeFrame, hright, toBytes_u32_ofBytes hcrc, List.append_assoc]
    obtain ⟨msg, hmsg⟩ := verifyCrc_eq_err hwrong
    exact ⟨msg, by rw [hmsg]; rfl⟩
  · exact ⟨msg, decodeFrame_badHeader rest hhdr hmsg⟩

end

end

/-- **The decoder accepts exactly the frames.** A byte string is decoded to a
header and a payload when the payload has the header's length, within the
limit, and the string begins with their encoding. Any other byte string is
refused with an error: the decoder never panics. -/
theorem decodeFrame_correct (bytes : List UInt8) :
    (∀ (h : FrameHeader) (payload : List UInt8),
      decodeFrameFromBytes crc32c bytes = .ok (h, payload) ↔
        payload.length = h.payloadLen.toNat ∧ h.payloadLen ≤ maxPayloadSize ∧
          encodeFrame crc32c h payload <+: bytes) ∧
      ((∃ out, decodeFrameFromBytes crc32c bytes = .ok out) ∨
        ∃ msg, decodeFrameFromBytes crc32c bytes = err (.protocol msg)) := by
  have hencoded : ∀ (h : FrameHeader) (payload : List UInt8),
      payload.length = h.payloadLen.toNat → h.payloadLen ≤ maxPayloadSize →
      encodeFrame crc32c h payload <+: bytes →
      decodeFrameFromBytes crc32c bytes = .ok (h, payload) := by
    rintro h payload hlen hmax ⟨rest, rfl⟩
    exact decodeFrame_encodeFrame rest hlen hmax
  by_cases hsome : ∃ (h : FrameHeader) (payload : List UInt8),
      payload.length = h.payloadLen.toNat ∧ h.payloadLen ≤ maxPayloadSize ∧
        encodeFrame crc32c h payload <+: bytes
  · obtain ⟨h, payload, hlen, hmax, hfront⟩ := hsome
    have hok := hencoded h payload hlen hmax hfront
    refine ⟨fun h' payload' => ⟨fun hdec => ?_, fun ⟨hlen', hmax', hfront'⟩ =>
      hencoded h' payload' hlen' hmax' hfront'⟩, .inl ⟨_, hok⟩⟩
    -- the frame in front is the one that was decoded
    obtain ⟨rfl, rfl⟩ : h = h' ∧ payload = payload' := by
      rw [hok] at hdec
      cases hdec
      exact ⟨rfl, rfl⟩
    exact ⟨hlen, hmax, hfront⟩
  · obtain ⟨msg, hmsg⟩ := decodeFrame_eq_err fun h payload hlen hmax hfront =>
      hsome ⟨h, payload, hlen, hmax, hfront⟩
    refine ⟨fun h payload => ⟨fun hdec => ?_, fun hframe => absurd ⟨h, payload, hframe⟩ hsome⟩,
      .inr ⟨msg, hmsg⟩⟩
    rw [hmsg] at hdec
    cases hdec

end Fracture
