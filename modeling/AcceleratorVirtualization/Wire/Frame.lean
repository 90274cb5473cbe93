import AcceleratorVirtualization.Wire.Codec

/-!
# Framing

Frames are length-prefixed and protected by a checksum. A stream decoder buffers what it is fed and
hands out the frames that are complete; a channel feeds it what its socket delivers, one chunk at a
time, and keeps the frames a chunk completes beyond the first.
-/

namespace AcceleratorVirtualization

open LittleEndian (toBytes ofBytes getAt)

/-! ### Scalars and checksums -/

/-- `put_u16`. -/
def putU16 (value : UInt16) : Bytes := toBytes 2 value.toNat
/-- `put_u32`. -/
def putU32 (value : UInt32) : Bytes := toBytes 4 value.toNat
/-- `put_u64`. -/
def putU64 (value : UInt64) : Bytes := toBytes 8 value.toNat

/-- Reads past the end give zero. -/
def getU16 (data : Bytes) (offset : ℕ) : UInt16 := .ofNat (getAt 2 data offset)
/-- `get_u32` at an offset. -/
def getU32 (data : Bytes) (offset : ℕ) : UInt32 := .ofNat (getAt 4 data offset)
/-- `get_u64` at an offset. -/
def getU64 (data : Bytes) (offset : ℕ) : UInt64 := .ofNat (getAt 8 data offset)

theorem length_putU16 (v : UInt16) : (putU16 v).length = 2 := LittleEndian.length_toBytes ..
theorem length_putU32 (v : UInt32) : (putU32 v).length = 4 := LittleEndian.length_toBytes ..
theorem length_putU64 (v : UInt64) : (putU64 v).length = 8 := LittleEndian.length_toBytes ..

/-- A value is told from its two bytes. -/
theorem putU16_injective : Function.Injective putU16 := by
  intro a b h
  have hback := congrArg ofBytes h
  rw [putU16, putU16, LittleEndian.ofBytes_toBytes_of_lt a.toNat_lt,
    LittleEndian.ofBytes_toBytes_of_lt b.toNat_lt] at hback
  exact UInt16.toNat_inj.mp hback

/-- A value is told from its four bytes. -/
theorem putU32_injective : Function.Injective putU32 := by
  intro a b h
  have hback := congrArg ofBytes h
  rw [putU32, putU32, LittleEndian.ofBytes_toBytes_of_lt a.toNat_lt,
    LittleEndian.ofBytes_toBytes_of_lt b.toNat_lt] at hback
  exact UInt32.toNat_inj.mp hback

/-- A value is told from its eight bytes. -/
theorem putU64_injective : Function.Injective putU64 := by
  intro a b h
  have hback := congrArg ofBytes h
  rw [putU64, putU64, LittleEndian.ofBytes_toBytes_of_lt a.toNat_lt,
    LittleEndian.ofBytes_toBytes_of_lt b.toNat_lt] at hback
  exact UInt64.toNat_inj.mp hback

/-- A word and what follows it, at an offset. -/
theorem drop_eq_toBytes {width : ℕ} {view : Bytes} {offset : ℕ} (h : offset + width ≤ view.length) :
    view.drop offset = toBytes width (getAt width view offset) ++ view.drop (offset + width) := by
  rw [LittleEndian.toBytes_getAt h, ← List.drop_drop, List.take_append_drop]

/-- The two bytes at an offset are those of the value read there. -/
theorem drop_eq_putU16 {view : Bytes} {offset : ℕ} (h : offset + 2 ≤ view.length) :
    view.drop offset = putU16 (getU16 view offset) ++ view.drop (offset + 2) := by
  have hlt := LittleEndian.getAt_lt 2 view offset
  rw [putU16, getU16, UInt16.toNat_ofNat', Nat.mod_eq_of_lt (lt_of_lt_of_eq hlt (by norm_num)),
    drop_eq_toBytes h]

/-- The four bytes at an offset are those of the value read there. -/
theorem drop_eq_putU32 {view : Bytes} {offset : ℕ} (h : offset + 4 ≤ view.length) :
    view.drop offset = putU32 (getU32 view offset) ++ view.drop (offset + 4) := by
  have hlt := LittleEndian.getAt_lt 4 view offset
  rw [putU32, getU32, UInt32.toNat_ofNat', Nat.mod_eq_of_lt (lt_of_lt_of_eq hlt (by norm_num)),
    drop_eq_toBytes h]

/-- The eight bytes at an offset are those of the value read there. -/
theorem drop_eq_putU64 {view : Bytes} {offset : ℕ} (h : offset + 8 ≤ view.length) :
    view.drop offset = putU64 (getU64 view offset) ++ view.drop (offset + 8) := by
  have hlt := LittleEndian.getAt_lt 8 view offset
  rw [putU64, getU64, UInt64.toNat_ofNat', Nat.mod_eq_of_lt (lt_of_lt_of_eq hlt (by norm_num)),
    drop_eq_toBytes h]

/-- A word that is laid out at an offset is read there. -/
theorem getU32_of_drop {view after : Bytes} {offset : ℕ} {v : UInt32}
    (h : view.drop offset = putU32 v ++ after) : getU32 view offset = v := by
  have hlength := congrArg List.length h
  rw [List.length_drop, List.length_append, length_putU32] at hlength
  have hread : view.drop offset = putU32 (getU32 view offset) ++ view.drop (offset + 4) :=
    drop_eq_putU32 (by omega)
  rw [h] at hread
  exact (putU32_injective (List.append_inj hread (by simp only [length_putU32])).1).symm

/-- A value in front is read back. -/
theorem getU64_putU64 (v : UInt64) : getU64 (putU64 v) 0 = v := by
  have hread : (putU64 v).drop 0 = putU64 (getU64 (putU64 v) 0) ++ (putU64 v).drop (0 + 8) :=
    drop_eq_putU64 (by rw [length_putU64])
  rw [List.drop_zero] at hread
  exact (putU64_injective (List.append_inj (hread.symm.trans (List.append_nil _).symm)
    (by simp only [length_putU64])).1)

/-- A value in front is read back, whatever follows. -/
theorem getU32_append (v : UInt32) (after : Bytes) : getU32 (putU32 v ++ after) 0 = v :=
  getU32_of_drop List.drop_zero

namespace Crc32c

/-- One bit of the reflected polynomial division. -/
def shift (crc : UInt32) : UInt32 :=
  if crc &&& 1 = 1 then (crc >>> 1) ^^^ 0x82F63B78 else crc >>> 1

/-- `Crc32c::update`: eight shifts for each byte. -/
def update (crc : UInt32) (data : Bytes) : UInt32 :=
  data.foldl (fun crc byte => shift^[8] (crc ^^^ byte.toUInt32)) crc

/-- CRC-32C (Castagnoli). -/
def compute (data : Bytes) : UInt32 := update 0xFFFFFFFF data ^^^ 0xFFFFFFFF

end Crc32c

/-! ### Frames -/

/-- "AVF1". -/
def frameMagic : UInt32 := 0x31465641

/-- `kFrameHeaderSize`. -/
def frameHeaderSize : ℕ := 28

/-- `kDefaultMaxFramePayload`, one MiB. -/
def defaultMaxFramePayload : UInt32 := 1024 * 1024

/-- `protocol_version`. -/
def protocolVersion : UInt16 := 1

/-- `FrameHeader`, with the defaults of the source. -/
structure FrameHeader where
  magic : UInt32 := frameMagic
  version : UInt16 := protocolVersion
  type : UInt16 := 0
  flags : UInt32 := 0
  request : UInt64 := 0
  payloadLength : UInt32 := 0
  payloadCrc : UInt32 := 0
  deriving DecidableEq

/-- `Frame`: a header and its payload. -/
structure Frame where
  header : FrameHeader := {}
  payload : Bytes := []
  deriving DecidableEq

/-- The length and the checksum are those of the payload, whatever the header says. -/
def encodeFrame (header : FrameHeader) (payload : Bytes) : Bytes :=
  putU32 header.magic ++ (putU16 header.version ++ (putU16 header.type ++ (putU32 header.flags ++
    (putU64 header.request ++ (putU32 (.ofNat payload.length) ++
      (putU32 (Crc32c.compute payload) ++ payload))))))

/-- One frame in a buffer of its own. The version is not looked at. -/
def decodeFrame (bytes : Bytes) : Except Status (FrameHeader × Bytes) := do
  if bytes.length < frameHeaderSize then
    throw (.of .truncatedState "frame is shorter than the frame header")
  let header : FrameHeader :=
    { magic := getU32 bytes 0, version := getU16 bytes 4, type := getU16 bytes 6
      flags := getU32 bytes 8, request := getU64 bytes 12, payloadLength := getU32 bytes 20
      payloadCrc := getU32 bytes 24 }
  if header.magic ≠ frameMagic then
    throw (.of .malformedFrame "frame magic does not match")
  if bytes.length - frameHeaderSize ≠ header.payloadLength.toNat then
    throw ⟨.malformedFrame, txt "frame declares " ++ toDecimal header.payloadLength.toNat ++
      txt " payload byte(s) but " ++ toDecimal (bytes.length - frameHeaderSize) ++
      txt " are present"⟩
  let payload := bytes.drop frameHeaderSize
  if Crc32c.compute payload ≠ header.payloadCrc then
    throw (.of .integrityFailure "frame payload failed its integrity check")
  return (header, payload)

/-! ### The stream decoder -/

/-- `FrameStream`: what has been fed and not dropped yet, and how much of it has been consumed. -/
structure FrameStream where
  buffer : Bytes := []
  consumed : ℕ := 0
  maxPayload : UInt32 := defaultMaxFramePayload
  deriving DecidableEq

namespace FrameStream

/-- `FrameStream::buffered`. -/
def buffered (s : FrameStream) : ℕ := s.buffer.length - s.consumed

/-- `FrameStream::compact`: the consumed bytes are dropped. -/
def compact (s : FrameStream) : FrameStream :=
  { s with buffer := s.buffer.drop s.consumed, consumed := 0 }

/-- One turn of the loop over the buffered bytes: the first frame and how many bytes it takes, or
nothing if it is not complete. -/
def next (maxPayload : UInt32) (view : Bytes) : Except Status (Option (Frame × ℕ)) := do
  if view.length < frameHeaderSize then return none
  let magic := getU32 view 0
  if magic ≠ frameMagic then
    throw (.of .malformedFrame "stream does not start with a valid frame magic")
  let version := getU16 view 4
  if version ≠ protocolVersion then
    throw ⟨.versionMismatch, txt "peer speaks protocol version " ++ toDecimal version.toNat ++
      txt " but this build speaks " ++ toDecimal protocolVersion.toNat⟩
  let length := getU32 view 20
  let crc := getU32 view 24
  if length > maxPayload then
    throw ⟨.frameTooLarge, txt "frame declares " ++ toDecimal length.toNat ++
      txt " payload byte(s), exceeding the limit of " ++ toDecimal maxPayload.toNat⟩
  if view.length < frameHeaderSize + length.toNat then return none
  let payload := (view.drop frameHeaderSize).take length.toNat
  if Crc32c.compute payload ≠ crc then
    throw (.of .integrityFailure "frame payload failed its integrity check")
  let header : FrameHeader :=
    { magic, version, type := getU16 view 6, flags := getU32 view 8, request := getU64 view 12,
      payloadLength := length, payloadCrc := crc }
  return some (⟨header, payload⟩, frameHeaderSize + length.toNat)

/-- The loop of `feed`: every turn but the last takes a frame off. -/
def drain (s : FrameStream) (out : List Frame) : ℕ → FrameStream × List Frame × Except Status Unit
  | 0 => (s.compact, out, .ok ())
  | fuel + 1 =>
    match next s.maxPayload (s.buffer.drop s.consumed) with
    | .error status => (s, out, .error status)
    | .ok none => (s.compact, out, .ok ())
    | .ok (some (frame, size)) =>
      drain { s with consumed := s.consumed + size } (out ++ [frame]) fuel

/-- A turn takes at least a header, so there are not more turns than buffered bytes. -/
def feed (s : FrameStream) (chunk : Bytes) : FrameStream × List Frame × Except Status Unit :=
  if s.buffered + chunk.length > s.maxPayload.toNat + frameHeaderSize then
    (s, [], .error ⟨.frameTooLarge,
      txt "buffered frame data would exceed the maximum frame size of " ++
        toDecimal s.maxPayload.toNat ++ txt " byte(s)"⟩)
  else
    let s := { s with buffer := s.buffer ++ chunk }
    s.drain [] (s.buffered + 1)

end FrameStream

/-! ### The channel -/

/-- How many bytes a channel takes from its socket at a time. -/
def receiveBufferSize : ℕ := 64 * 1024

/-- A channel with the chunks its socket is going to deliver before the peer closes it. -/
structure FrameChannel where
  socket : List Bytes := []
  stream : FrameStream := {}
  pending : List Frame := []
  isOpen : Bool := true
  framesReceived : ℕ := 0

namespace FrameChannel

/-- The loop of `receive`: chunks are fed until one completes a frame. -/
def await (c : FrameChannel) : List Bytes → FrameChannel × Except Status Frame
  | [] | [] :: _ => ({ c with socket := [], isOpen := false },
      .error (.of .connectionLost "peer closed the connection"))
  | chunk :: socket =>
    match c.stream.feed chunk with
    | (stream, _, .error status) => ({ c with socket, stream, isOpen := false }, .error status)
    | (stream, [], .ok ()) => await { c with stream } socket
    | (stream, first :: others, .ok ()) =>
      ({ c with
          socket, stream, pending := c.pending ++ others
          framesReceived := c.framesReceived + 1 }, .ok first)

/-- `FrameChannel::receive`: a pending frame first, else one read from the socket. -/
def receive (c : FrameChannel) : FrameChannel × Except Status Frame :=
  match c.pending with
  | frame :: pending =>
    ({ c with pending, framesReceived := c.framesReceived + 1 }, .ok frame)
  | [] =>
    if c.isOpen then c.await c.socket
    else (c, .error (.of .connectionLost "channel is closed"))

end FrameChannel

end AcceleratorVirtualization
