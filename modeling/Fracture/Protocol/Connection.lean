import Fracture.Common.Reading
import Fracture.Protocol.Frame

/-!
# Connections

The two halves of a connection. The writer puts the encoding of a frame on
the wire. The reader takes a frame off it with three exact reads: the
header, the payload and the checksum. How the network cuts the stream into
reads makes no difference to it (`recv_refines_decode`), and it returns
what the decoder of `Frame` returns on the bytes that are left.

The writer casts the payload's length to 32 bits and asks for no limit, so
what it sends is a frame for the reader as long as the payload is within
the limit (`recv_of_sendRaw_iff`).
-/

namespace Fracture

open Effect BigEndian Reading

/-- What a receive returns. -/
abbrev Received := Except Fault (FrameHeader × List UInt8)

/-- A frame within the limit. -/
structure Frame where
  header : FrameHeader
  payload : List UInt8
  length_payload : payload.length = header.payloadLen.toNat
  within : header.payloadLen ≤ maxPayloadSize

/-- What a receive of the frame returns. -/
def Frame.contents (f : Frame) : FrameHeader × List UInt8 := (f.header, f.payload)

section

variable (crc32c : List UInt8 → UInt32)

def Frame.encode (f : Frame) : List UInt8 := encodeFrame crc32c f.header f.payload

/-- The frames' bytes, one after the other. -/
def encodeFrames (frames : List Frame) : List UInt8 := (frames.map (Frame.encode crc32c)).flatten

/-! ## The reader -/

/-- The last of a receive's reads, after the header and the payload. -/
def recvCrc (hdrBuf : List UInt8) (header : FrameHeader) (payload : List UInt8) :
    Program UInt8 Received :=
  .take crcSize fun crcBuf =>
    .done do
      verifyCrc crc32c (hdrBuf ++ payload) (UInt32.ofNat (ofBytes crcBuf))
      .ok (header, payload)

/-- The payload's read, which is left out for an empty one. -/
def recvPayload (hdrBuf : List UInt8) (header : FrameHeader) : Program UInt8 Received :=
  if header.payloadLen = 0 then recvCrc crc32c hdrBuf header []
  else .take header.payloadLen.toNat (recvCrc crc32c hdrBuf header)

/-- A receive as the reads it makes. -/
def recvFrame : Program UInt8 Received :=
  .take headerSize fun hdrBuf =>
    match decodeHeader hdrBuf with
    | .error e => .done (.error e)
    | .ok header => recvPayload crc32c hdrBuf header

/-- The read half of a connection. -/
structure FramedReader where
  /-- What was read from the network and not yet taken. -/
  buffer : List UInt8
  /-- What the network's next reads return. A read of nothing is the end of
  the stream, and so is the end of the list. -/
  reads : List (List UInt8)

/-- The bytes still to be taken. -/
def FramedReader.bytes (r : FramedReader) : List UInt8 := r.buffer ++ stream r.reads

/-- Receives the next frame. -/
def FramedReader.recv (r : FramedReader) : Received × FramedReader :=
  let out := drive (recvFrame crc32c) r.buffer r.reads
  (out.1.getD (err (.io "early eof")), { buffer := out.2.1, reads := out.2.2 })

/-- One receive after another, until one fails: the frames, why it stopped
if it did, and the reader. -/
def FramedReader.recvMany : ℕ → FramedReader →
    List (FrameHeader × List UInt8) × Option Fault × FramedReader
  | 0, r => ([], none, r)
  | n + 1, r =>
    match r.recv crc32c with
    | (.ok frame, r') =>
      let later := FramedReader.recvMany n r'
      (frame :: later.1, later.2)
    | (.error e, r') => ([], some e, r')

/-- The frames in front of a byte string, at most so many of them, by the
decoder: each is decoded from what the one before it left. -/
def decodeMany : ℕ → List UInt8 → List (FrameHeader × List UInt8)
  | 0, _ => []
  | n + 1, bytes =>
    match decodeFrameFromBytes crc32c bytes with
    | .ok (h, payload) =>
      (h, payload) :: decodeMany n (bytes.drop (encodeFrame crc32c h payload).length)
    | .error _ => []

end

/-- A stream that ends before the frame at its front does. -/
def Truncated (bytes : List UInt8) : Prop :=
  bytes.length < headerSize ∨
    ∃ h, decodeHeader (bytes.take headerSize) = .ok h ∧
      bytes.length < headerSize + h.payloadLen.toNat + crcSize

/-! ## What a receive does on the bytes there are -/

section

variable {crc32c : List UInt8 → UInt32} {hdr payload crc : List UInt8} {h : FrameHeader}

theorem feed_recvPayload (rest : List UInt8) (hpayload : payload.length = h.payloadLen.toNat) :
    (recvPayload crc32c hdr h).feed (payload ++ rest) =
      (recvCrc crc32c hdr h payload).feed rest := by
  unfold recvPayload
  by_cases hzero : h.payloadLen = 0
  · have hnil : payload = [] := by
      rw [hzero] at hpayload
      exact List.length_eq_zero_iff.1 hpayload
    rw [if_pos hzero, hnil, List.nil_append]
  · rw [if_neg hzero, Program.feed_take_append _ hpayload]

section

variable (rest : List UInt8) (hhdr : hdr.length = headerSize)
include rest hhdr

theorem feed_recvFrame_header (hdec : decodeHeader hdr = .ok h) :
    (recvFrame crc32c).feed (hdr ++ rest) = (recvPayload crc32c hdr h).feed rest := by
  rw [recvFrame, Program.feed_take_append _ hhdr, hdec]

theorem feed_recvFrame_badHeader {e : Fault} (hdec : decodeHeader hdr = .error e) :
    (recvFrame crc32c).feed (hdr ++ rest) = (.done (.error e), rest) := by
  rw [recvFrame, Program.feed_take_append _ hhdr, hdec]
  rfl

theorem feed_recvFrame_append (hdec : decodeHeader hdr = .ok h)
    (hpayload : payload.length = h.payloadLen.toNat) (hcrc : crc.length = crcSize) :
    (recvFrame crc32c).feed (hdr ++ (payload ++ (crc ++ rest))) =
      (.done (verifyCrc crc32c (hdr ++ payload) (UInt32.ofNat (ofBytes crc)) >>=
        fun _ => .ok (h, payload)), rest) := by
  rw [feed_recvFrame_header _ hhdr hdec, feed_recvPayload _ hpayload, recvCrc,
    Program.feed_take_append _ hcrc]
  rfl

end

theorem recvFrame_short {bytes : List UInt8} (hshort : bytes.length < headerSize) :
    ((recvFrame crc32c).feed bytes).1.isDone = false := by
  rw [recvFrame, Program.feed_take_of_lt _ hshort]
  rfl

theorem recvFrame_truncated {rest : List UInt8} (hhdr : hdr.length = headerSize)
    (hdec : decodeHeader hdr = .ok h) (hrest : rest.length < h.payloadLen.toNat + crcSize) :
    ((recvFrame crc32c).feed (hdr ++ rest)).1.isDone = false := by
  rw [feed_recvFrame_header _ hhdr hdec]
  by_cases hpay : rest.length < h.payloadLen.toNat
  · have hzero : h.payloadLen ≠ 0 := by
      intro hzero
      rw [hzero] at hpay
      exact Nat.not_lt_zero _ hpay
    rw [recvPayload, if_neg hzero, Program.feed_take_of_lt _ hpay]
    rfl
  · obtain ⟨payload, rest, rfl, hpayload⟩ := exists_append_of_le (Nat.not_lt.1 hpay)
    have hshort : rest.length < crcSize := by
      rw [List.length_append] at hrest
      omega
    rw [feed_recvPayload _ hpayload, recvCrc, Program.feed_take_of_lt _ hshort]
    rfl

/-- A frame whose checksum was right is the encoding of what was read. -/
theorem encodeFrame_of_verifyCrc (hcrc : crc.length = crcSize)
    (hok : verifyCrc crc32c (encodeHeader h ++ payload) (UInt32.ofNat (ofBytes crc)) = .ok ()) :
    encodeFrame crc32c h payload = encodeHeader h ++ (payload ++ crc) := by
  by_cases hright : crc32c (encodeHeader h ++ payload) = UInt32.ofNat (ofBytes crc)
  · have hbytes : toBytes 4 (UInt32.ofNat (ofBytes crc)).toNat = crc := toBytes_u32_ofBytes hcrc
    simp only [encodeFrame, hright, hbytes, List.append_assoc]
  · obtain ⟨msg, hmsg⟩ := verifyCrc_eq_err hright
    rw [hmsg] at hok
    cases hok

end

section

variable (crc32c : List UInt8 → UInt32)

/-- **A receive on the bytes there are.** It waits for more exactly when
they end inside a frame, and otherwise has what the decoder returns on
them. A frame it returns is taken, and nothing after it. -/
theorem feed_recvFrame (bytes : List UInt8) :
    (Truncated bytes → ((recvFrame crc32c).feed bytes).1.isDone = false ∧
        ∃ msg, decodeFrameFromBytes crc32c bytes = err (.protocol msg)) ∧
      (¬ Truncated bytes → ∃ rest,
        (recvFrame crc32c).feed bytes = (.done (decodeFrameFromBytes crc32c bytes), rest) ∧
          ∀ out, decodeFrameFromBytes crc32c bytes = .ok out →
            ∃ f : Frame, f.contents = out ∧ bytes = f.encode crc32c ++ rest) := by
  by_cases hshort : bytes.length < headerSize
  · exact ⟨fun _ => ⟨recvFrame_short hshort, _, if_pos hshort⟩, fun h => absurd (.inl hshort) h⟩
  obtain ⟨hdr, rest, rfl, hhdr⟩ := exists_append_of_le (Nat.not_lt.1 hshort)
  have htake : (hdr ++ rest).take headerSize = hdr := by rw [← hhdr, List.take_left]
  have hlen : (hdr ++ rest).length = headerSize + rest.length := by rw [List.length_append, hhdr]
  rcases decodeHeader_cases hhdr with ⟨h, hmax, rfl⟩ | ⟨msg, hdec⟩
  · have hdec := decodeHeader_encodeHeader hmax
    have htrunc : Truncated (encodeHeader h ++ rest) ↔
        rest.length < h.payloadLen.toNat + crcSize := by
      unfold Truncated
      rw [htake, hdec, hlen]
      constructor
      · rintro (hfew | ⟨h', heq, hfew⟩)
        · omega
        · cases heq
          omega
      · intro hfew
        exact .inr ⟨h, rfl, by omega⟩
    rw [htrunc]
    refine ⟨fun hfew => ⟨recvFrame_truncated hhdr hdec hfew,
      decodeFrame_truncated hhdr hdec hfew⟩, fun hmany => ?_⟩
    obtain ⟨payload, rest, rfl, hpayload⟩ :=
      exists_append_of_le (Nat.le_of_add_right_le (Nat.not_lt.1 hmany))
    have hmore : crcSize ≤ rest.length := by
      rw [List.length_append] at hmany
      omega
    obtain ⟨crc, rest, rfl, hcrc⟩ := exists_append_of_le hmore
    rw [decodeFrame_append rest hhdr hdec hpayload hcrc,
      feed_recvFrame_append rest hhdr hdec hpayload hcrc]
    refine ⟨rest, rfl, fun out hok => ?_⟩
    obtain ⟨⟨⟩, hchecked, heq⟩ := except_bind_eq_ok.1 hok
    refine ⟨⟨h, payload, hpayload, hmax⟩, Except.ok.inj heq, ?_⟩
    rw [Frame.encode, encodeFrame_of_verifyCrc hcrc hchecked]
    simp only [List.append_assoc]
  · have htrunc : ¬ Truncated (hdr ++ rest) := by
      rintro (hfew | ⟨h, heq, -⟩)
      · exact hshort hfew
      · rw [htake, hdec] at heq
        cases heq
    rw [decodeFrame_badHeader rest hhdr hdec, feed_recvFrame_badHeader rest hhdr hdec]
    refine ⟨fun h => absurd h htrunc, fun _ => ⟨rest, rfl, fun out hok => ?_⟩⟩
    cases hok

/-- A frame is taken to its end and no further. -/
theorem feed_recvFrame_encode (f : Frame) (rest : List UInt8) :
    (recvFrame crc32c).feed (f.encode crc32c ++ rest) = (.done (.ok f.contents), rest) := by
  have hcrc : (toBytes 4 (crc32c (encodeHeader f.header ++ f.payload)).toNat).length = crcSize :=
    length_toBytes _ _
  have hframe : f.encode crc32c ++ rest = encodeHeader f.header ++ (f.payload ++
      (toBytes 4 (crc32c (encodeHeader f.header ++ f.payload)).toNat ++ rest)) := by
    simp only [Frame.encode, encodeFrame, List.append_assoc]
  rw [hframe, feed_recvFrame_append rest (length_encodeHeader f.header)
    (decodeHeader_encodeHeader f.within) f.length_payload hcrc,
    verifyCrc_eq_ok (u32_ofBytes_toBytes _).symm, except_ok_bind]
  rfl

/-! ## Receives -/

variable {crc32c} {r : FramedReader}

theorem recv_of_truncated (h : Truncated r.bytes) :
    (r.recv crc32c).1 = err (.io "early eof") := by
  have hfeed := ((feed_recvFrame crc32c r.bytes).1 h).1
  rw [FramedReader.recv, (drive_eq_feed (recvFrame crc32c) r.buffer r.reads).2 hfeed,
    Option.getD_none]

theorem recv_of_not_truncated (h : ¬ Truncated r.bytes) :
    (r.recv crc32c).1 = decodeFrameFromBytes crc32c r.bytes ∧
      ∀ out, decodeFrameFromBytes crc32c r.bytes = .ok out →
        ∃ f : Frame, f.contents = out ∧ r.bytes = f.encode crc32c ++ (r.recv crc32c).2.bytes := by
  obtain ⟨rest, hfeed, hsplit⟩ := (feed_recvFrame crc32c r.bytes).2 h
  obtain ⟨hresult, hrest⟩ :=
    (drive_eq_feed (recvFrame crc32c) r.buffer r.reads).1 _ _ hfeed
  have hbytes : (r.recv crc32c).2.bytes = rest := hrest
  rw [hbytes]
  refine ⟨?_, hsplit⟩
  rw [FramedReader.recv, hresult, Option.getD_some]

/-- The receive that returns a frame took it and nothing after it. -/
theorem exists_frame_of_recv {out : FrameHeader × List UInt8} (h : (r.recv crc32c).1 = .ok out) :
    decodeFrameFromBytes crc32c r.bytes = .ok out ∧
      ∃ f : Frame, f.contents = out ∧ r.bytes = f.encode crc32c ++ (r.recv crc32c).2.bytes := by
  by_cases htrunc : Truncated r.bytes
  · rw [recv_of_truncated htrunc] at h
    cases h
  · obtain ⟨hdecode, hsplit⟩ := recv_of_not_truncated htrunc
    rw [hdecode] at h
    exact ⟨h, hsplit _ h⟩

/-- A frame at the front is received, and what is after it is left. -/
theorem recv_encode {f : Frame} {rest : List UInt8} (hbytes : r.bytes = f.encode crc32c ++ rest) :
    (r.recv crc32c).1 = .ok f.contents ∧ (r.recv crc32c).2.bytes = rest := by
  have hfeed := feed_recvFrame_encode crc32c f rest
  rw [← hbytes] at hfeed
  obtain ⟨hresult, hrest⟩ := (drive_eq_feed (recvFrame crc32c) r.buffer r.reads).1 _ _ hfeed
  refine ⟨?_, hrest⟩
  rw [FramedReader.recv, hresult, Option.getD_some]

/-- A proper front of a frame is a stream that ends inside it. -/
theorem truncated_of_prefix {f : Frame} {front : List UInt8} (hfront : front <+: f.encode crc32c)
    (hproper : front ≠ f.encode crc32c) : Truncated front := by
  have hlen : (f.encode crc32c).length = headerSize + f.header.payloadLen.toNat + crcSize := by
    simp only [Frame.encode, encodeFrame, List.length_append, length_encodeHeader, length_toBytes,
      f.length_payload, crcSize]
  have hshorter : front.length < (f.encode crc32c).length := by
    have hle := hfront.length_le
    have hne : front.length ≠ (f.encode crc32c).length :=
      fun heq => hproper (hfront.eq_of_length heq)
    omega
  rcases Nat.lt_or_ge front.length headerSize with hfew | hmany
  · exact .inl hfew
  · refine .inr ⟨f.header, ?_, by omega⟩
    obtain ⟨rest, hrest⟩ := hfront
    have htake : front.take headerSize = encodeHeader f.header := by
      have hheader := length_encodeHeader f.header
      calc front.take headerSize
          = (front ++ rest).take headerSize := (List.take_append_of_le_length hmany).symm
        _ = encodeHeader f.header := by
          rw [hrest, Frame.encode, encodeFrame, List.append_assoc, ← hheader, List.take_left]
    rw [htake, decodeHeader_encodeHeader f.within]

variable {n : ℕ}

theorem recvMany_succ : r.recvMany crc32c (n + 1) = match (r.recv crc32c).1 with
    | .ok out =>
      (out :: ((r.recv crc32c).2.recvMany crc32c n).1, ((r.recv crc32c).2.recvMany crc32c n).2)
    | .error e => ([], some e, (r.recv crc32c).2) := by
  rw [FramedReader.recvMany]
  obtain ⟨result, r'⟩ := r.recv crc32c
  cases result <;> rfl

/-- **Frame by frame.** Receives return the frames the decoder finds, each
in what the one before it left. -/
theorem recvMany_eq_decodeMany (n : ℕ) (r : FramedReader) :
    (r.recvMany crc32c n).1 = decodeMany crc32c n r.bytes := by
  induction n generalizing r with
  | zero => rfl
  | succ n ih =>
    cases hrecv : (r.recv crc32c).1 with
    | ok out =>
      obtain ⟨hdecode, f, rfl, hsplit⟩ := exists_frame_of_recv hrecv
      have hrest : r.bytes.drop (encodeFrame crc32c f.header f.payload).length =
          (r.recv crc32c).2.bytes := by
        rw [hsplit, Frame.encode, List.drop_left]
      rw [recvMany_succ, hrecv, decodeMany, hdecode]
      dsimp only [Frame.contents]
      rw [ih, hrest]
    | error e =>
      have hrefused : ∃ e', decodeFrameFromBytes crc32c r.bytes = .error e' := by
        by_cases htrunc : Truncated r.bytes
        · obtain ⟨-, msg, hmsg⟩ := (feed_recvFrame crc32c r.bytes).1 htrunc
          exact ⟨_, hmsg⟩
        · rw [(recv_of_not_truncated htrunc).1] at hrecv
          exact ⟨e, hrecv⟩
      obtain ⟨e', hdecode⟩ := hrefused
      rw [recvMany_succ, hrecv, decodeMany, hdecode]

theorem recvMany_encodeFrames {frames : List Frame} {rest : List UInt8}
    (hbytes : r.bytes = encodeFrames crc32c frames ++ rest) :
    ∃ r' : FramedReader, r'.bytes = rest ∧ r.recvMany crc32c (frames.length + n) =
      (frames.map Frame.contents ++ (r'.recvMany crc32c n).1, (r'.recvMany crc32c n).2) := by
  induction frames generalizing r with
  | nil =>
    refine ⟨r, hbytes, ?_⟩
    rw [List.length_nil, Nat.zero_add]
    rfl
  | cons f frames ih =>
    have hfront : r.bytes = f.encode crc32c ++ (encodeFrames crc32c frames ++ rest) := by
      rw [hbytes, encodeFrames, List.map_cons, List.flatten_cons, List.append_assoc]
      rfl
    obtain ⟨hrecv, hafter⟩ := recv_encode hfront
    obtain ⟨r', hrest, hmany⟩ := ih hafter
    have hcount : (f :: frames).length + n = frames.length + n + 1 := by
      rw [List.length_cons]
      omega
    refine ⟨r', hrest, ?_⟩
    rw [hcount, recvMany_succ, hrecv, hmany, List.map_cons, List.cons_append]

end

section

variable (crc32c : List UInt8 → UInt32)

/-- **The reader refines the decoder.** However the network cuts a stream
into reads, a receive returns what the decoder returns on the bytes that
are left, except that a stream that ends inside a frame, which the decoder
refuses, is an end of file. A frame that is returned is consumed, and
nothing after it. So receives return, one after the other, the frames the
decoder finds; the encodings of frames within the limit are received as
those frames; and where the stream ends inside a frame, the receive after
the whole ones fails. -/
theorem recv_refines_decode (r : FramedReader) :
    (¬ Truncated r.bytes → (r.recv crc32c).1 = decodeFrameFromBytes crc32c r.bytes) ∧
    (Truncated r.bytes → (r.recv crc32c).1 = err (.io "early eof") ∧
      ∃ msg, decodeFrameFromBytes crc32c r.bytes = err (.protocol msg)) ∧
    (∀ h payload, (r.recv crc32c).1 = .ok (h, payload) →
      r.bytes = encodeFrame crc32c h payload ++ (r.recv crc32c).2.bytes) ∧
    (∀ n, (r.recvMany crc32c n).1 = decodeMany crc32c n r.bytes) ∧
    (∀ (frames : List Frame) (rest : List UInt8), r.bytes = encodeFrames crc32c frames ++ rest →
      (r.recvMany crc32c frames.length).1 = frames.map Frame.contents ∧
        (r.recvMany crc32c frames.length).2.1 = none ∧
        (r.recvMany crc32c frames.length).2.2.bytes = rest) ∧
    (∀ (frames : List Frame) (last : Frame) (front : List UInt8), front <+: last.encode crc32c →
      front ≠ last.encode crc32c → r.bytes = encodeFrames crc32c frames ++ front →
      (r.recvMany crc32c (frames.length + 1)).1 = frames.map Frame.contents ∧
        (r.recvMany crc32c (frames.length + 1)).2.1 = some (.error (.io "early eof"))) := by
  refine ⟨fun h => (recv_of_not_truncated h).1,
    fun h => ⟨recv_of_truncated h, ((feed_recvFrame crc32c r.bytes).1 h).2⟩, ?_,
    fun n => recvMany_eq_decodeMany n r, ?_, ?_⟩
  · intro h payload hok
    obtain ⟨-, f, hsame, hsplit⟩ := exists_frame_of_recv hok
    cases hsame
    exact hsplit
  · intro frames rest hbytes
    obtain ⟨r', hrest, hmany⟩ := recvMany_encodeFrames (n := 0) hbytes
    rw [Nat.add_zero] at hmany
    rw [hmany]
    exact ⟨List.append_nil _, rfl, hrest⟩
  · intro frames last front hfront hproper hbytes
    obtain ⟨r', hrest, hmany⟩ := recvMany_encodeFrames (n := 1) hbytes
    have hend : (r'.recv crc32c).1 = err (.io "early eof") := by
      apply recv_of_truncated
      rw [hrest]
      exact truncated_of_prefix hfront hproper
    rw [hmany, recvMany_succ, hend]
    exact ⟨List.append_nil _, rfl⟩

end

/-- A frame that comes in two reads, the first of which ends inside the
header. -/
theorem recv_in_two_reads :
    let f : Frame := ⟨⟨.cacheAllocAck, 7, 2⟩, [1, 2], rfl, by decide⟩
    let bytes := f.encode fun _ => 5
    let r : FramedReader := ⟨[], [bytes.take 9, bytes.drop 9]⟩
    (r.recvMany (fun _ => 5) 1).1 = [f.contents] := by
  intro f bytes r
  exact ((recv_refines_decode (fun _ => 5) r).2.2.2.2.1 [f] [] (by decide)).1

/-! ## The writer -/

/-- The write half of a connection. -/
structure FramedWriter where
  /-- What was put on the wire so far. -/
  wire : List UInt8
  /-- How many more bytes the connection carries before it breaks, if it
  does. -/
  room : Option ℕ

namespace FramedWriter

/-- Writes all of some bytes, or as many as the connection takes. The buffer
in front of the socket is left out: a frame is flushed once it is written. -/
def writeAll (bs : List UInt8) : EStateM Fault FramedWriter Unit := fun w =>
  match w.room with
  | none => .ok () { w with wire := w.wire ++ bs }
  | some n =>
    if bs.length ≤ n then .ok () { wire := w.wire ++ bs, room := some (n - bs.length) }
    else .error (.error (.io "Broken pipe (os error 32)"))
      { wire := w.wire ++ bs.take n, room := some 0 }

theorem wire_of_writeAll {bs : List UInt8} {w w' : FramedWriter} (h : writeAll bs w = .ok () w') :
    w'.wire = w.wire ++ bs := by
  unfold writeAll at h
  cases hroom : w.room with
  | none =>
    rw [hroom] at h
    cases h
    rfl
  | some n =>
    rw [hroom] at h
    dsimp only at h
    split at h
    · cases h
      rfl
    · cases h

variable (crc32c : List UInt8 → UInt32)

/-- The header that is sent with a payload: its length is cast to 32 bits. -/
def headerOf (msgType : MessageType) (seqId : UInt64) (payload : List UInt8) : FrameHeader :=
  { msgType, seqId, payloadLen := UInt32.ofNat payload.length }

/-- Sends a message with a payload that is already serialized. -/
def sendRaw (msgType : MessageType) (seqId : UInt64) (payload : List UInt8) :
    EStateM Fault FramedWriter Unit := do
  let hdrBuf := encodeHeader (headerOf msgType seqId payload)
  let crc := crc32c (hdrBuf ++ payload)
  writeAll hdrBuf
  writeAll payload
  writeAll (toBytes 4 crc.toNat)

variable {crc32c} {msgType : MessageType} {seqId : UInt64} {payload : List UInt8}

/-- What a send that succeeded put on the wire. -/
theorem wire_of_sendRaw {w w' : FramedWriter}
    (h : sendRaw crc32c msgType seqId payload w = .ok () w') :
    w'.wire = w.wire ++ encodeFrame crc32c (headerOf msgType seqId payload) payload := by
  obtain ⟨w₁, hheader, h⟩ := unit_bind_eq_ok.1 h
  obtain ⟨w₂, hpayload, hcrc⟩ := unit_bind_eq_ok.1 h
  rw [wire_of_writeAll hcrc, wire_of_writeAll hpayload, wire_of_writeAll hheader]
  simp only [encodeFrame, List.append_assoc]

/-- The length within the limit is not cut by the cast. -/
theorem toNat_payloadLen_headerOf (h : payload.length ≤ maxPayloadSize.toNat) :
    (headerOf msgType seqId payload).payloadLen.toNat = payload.length := by
  have hlt : payload.length < 2 ^ 32 := Nat.lt_of_le_of_lt h maxPayloadSize.toNat_lt
  exact UInt32.toNat_ofNat_of_lt' hlt

end FramedWriter

open FramedWriter

/-- **What the peer makes of a send.** After a send that succeeded, the peer
receives just that type, id and payload, and goes on with the bytes after
them, exactly when the payload is within the reader's limit. -/
theorem recv_of_sendRaw_iff (crc32c : List UInt8 → UInt32) (msgType : MessageType)
    (seqId : UInt64) (payload : List UInt8) (w w' : FramedWriter)
    (hsend : sendRaw crc32c msgType seqId payload w = .ok () w') :
    ∃ sent, w'.wire = w.wire ++ sent ∧
      ∀ (r : FramedReader) (rest : List UInt8), r.bytes = sent ++ rest →
        ((∃ h, (r.recv crc32c).1 = .ok (h, payload) ∧ h.msgType = msgType ∧ h.seqId = seqId ∧
            (r.recv crc32c).2.bytes = rest) ↔
          payload.length ≤ maxPayloadSize.toNat) := by
  refine ⟨_, wire_of_sendRaw hsend, fun r rest hbytes => ⟨?_, fun hwithin => ?_⟩⟩
  · -- what is received is a frame within the limit
    rintro ⟨h, hrecv, -, -, -⟩
    obtain ⟨-, f, hsame, -⟩ := exists_frame_of_recv hrecv
    cases hsame
    rw [f.length_payload]
    exact UInt32.le_iff_toNat_le.1 f.within
  · have hlen : (headerOf msgType seqId payload).payloadLen.toNat = payload.length :=
      toNat_payloadLen_headerOf hwithin
    have hmax : (headerOf msgType seqId payload).payloadLen ≤ maxPayloadSize := by
      rw [UInt32.le_iff_toNat_le, hlen]
      exact hwithin
    obtain ⟨hrecv, hrest⟩ := recv_encode
      (f := ⟨headerOf msgType seqId payload, payload, hlen.symm, hmax⟩) hbytes
    exact ⟨_, hrecv, rfl, rfl, hrest⟩

/-- A send of one byte more than the limit succeeds, and its bytes are not
received as that message. -/
theorem oversized_send_not_received :
    let payload := List.replicate (256 * 1024 * 1024 + 1) (0 : UInt8)
    ∃ w', sendRaw (fun _ => 0) .forward 1 payload ⟨[], none⟩ = .ok () w' ∧
      ¬ ∃ h, ((⟨w'.wire, []⟩ : FramedReader).recv fun _ => 0).1 = .ok (h, payload) := by
  intro payload
  refine ⟨_, rfl, ?_⟩
  rintro ⟨h, hrecv⟩
  obtain ⟨-, f, hsame, -⟩ := exists_frame_of_recv hrecv
  have hlen : payload.length = f.header.payloadLen.toNat := by
    rw [← f.length_payload]
    exact congrArg List.length (congrArg Prod.snd hsame).symm
  have hmax : f.header.payloadLen.toNat ≤ maxPayloadSize.toNat := UInt32.le_iff_toNat_le.1 f.within
  rw [← hlen, List.length_replicate] at hmax
  revert hmax
  decide

/-- A heartbeat's bytes, with another message after them. -/
theorem recv_of_sendRaw_heartbeat :
    ∃ sent, (⟨[], none⟩ : FramedWriter).wire ++ sent = encodeFrame (fun _ => 0) ⟨.heartbeat, 3, 1⟩ [9] ∧
      (∃ h, ((⟨sent, []⟩ : FramedReader).recv fun _ => 0).1 = .ok (h, [9]) ∧
        h.msgType = .heartbeat ∧ h.seqId = 3 ∧
        ((⟨sent, []⟩ : FramedReader).recv fun _ => 0).2.bytes = []) := by
  obtain ⟨sent, hwire, hpeer⟩ := recv_of_sendRaw_iff (fun _ => 0) .heartbeat 3 [9] ⟨[], none⟩ _ rfl
  refine ⟨sent, hwire.symm, (hpeer ⟨sent, []⟩ [] rfl).2 (by decide)⟩

end Fracture
