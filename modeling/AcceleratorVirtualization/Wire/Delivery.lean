import AcceleratorVirtualization.Lib.Refusal
import AcceleratorVirtualization.Wire.Frame

/-!
# Delivery of frames

What a channel is going to deliver before it reports an error is one list, which a call of `receive`
takes the first frame off. The frames somebody sent are at its beginning if and only if every chunk
that carries a byte of them fits into the buffer and what follows the last of them in the chunk that
ends it does not break the framing: a chunk is refused whole, with the frames it completes.
-/

namespace AcceleratorVirtualization

open LittleEndian (toBytes ofBytes getAt)
open Refusal

/-! ### Words in a header -/

/-- The bytes of a header. -/
def FrameHeader.bytes (h : FrameHeader) : Bytes :=
  putU32 h.magic ++ (putU16 h.version ++ (putU16 h.type ++ (putU32 h.flags ++ (putU64 h.request ++
    (putU32 h.payloadLength ++ putU32 h.payloadCrc)))))

/-- The header at the front of some bytes. -/
def FrameHeader.read (view : Bytes) : FrameHeader where
  magic := getU32 view 0
  version := getU16 view 4
  type := getU16 view 6
  flags := getU32 view 8
  request := getU64 view 12
  payloadLength := getU32 view 20
  payloadCrc := getU32 view 24

/-- A header takes as many bytes as announced. -/
theorem FrameHeader.length_bytes (h : FrameHeader) : h.bytes.length = frameHeaderSize := by
  simp [bytes, length_putU16, length_putU32, length_putU64, frameHeaderSize]

/-- A header is told from its bytes. -/
theorem FrameHeader.bytes_injective : Function.Injective FrameHeader.bytes := by
  intro a b h
  obtain ⟨hmagic, h⟩ := List.append_inj h (by simp only [length_putU32])
  obtain ⟨hversion, h⟩ := List.append_inj h (by simp only [length_putU16])
  obtain ⟨htype, h⟩ := List.append_inj h (by simp only [length_putU16])
  obtain ⟨hflags, h⟩ := List.append_inj h (by simp only [length_putU32])
  obtain ⟨hrequest, h⟩ := List.append_inj h (by simp only [length_putU64])
  obtain ⟨hlength, hcrc⟩ := List.append_inj h (by simp only [length_putU32])
  cases a
  cases b
  simp only [FrameHeader.mk.injEq]
  exact ⟨putU32_injective hmagic, putU16_injective hversion, putU16_injective htype,
    putU32_injective hflags, putU64_injective hrequest, putU32_injective hlength,
    putU32_injective hcrc⟩

/-- Bytes that hold a header begin with the header that is read off them. -/
theorem FrameHeader.eq_bytes_read {view : Bytes} (h : frameHeaderSize ≤ view.length) :
    view = (read view).bytes ++ view.drop frameHeaderSize := by
  unfold frameHeaderSize at h
  simp only [bytes, read, List.append_assoc, frameHeaderSize]
  rw [← drop_eq_putU32 (by omega), ← drop_eq_putU32 (by omega), ← drop_eq_putU64 (by omega),
    ← drop_eq_putU32 (by omega), ← drop_eq_putU16 (by omega), ← drop_eq_putU16 (by omega),
    ← drop_eq_putU32 (by omega), List.drop_zero]

/-- A header in front is read back. -/
theorem FrameHeader.read_append (h : FrameHeader) (rest : Bytes) : read (h.bytes ++ rest) = h := by
  have hlong : frameHeaderSize ≤ (h.bytes ++ rest).length := by
    simp only [List.length_append, length_bytes]
    omega
  have hread := eq_bytes_read hlong
  exact (bytes_injective (List.append_inj hread (by simp only [length_bytes])).1).symm

/-! ### Frames on a stream -/

namespace Frame

/-- The bytes of a frame on the wire. -/
def encode (f : Frame) : Bytes := encodeFrame f.header f.payload

/-- The length of a frame on the wire. -/
def size (f : Frame) : ℕ := frameHeaderSize + f.payload.length

/-- A frame as it is sent: for this build, and with the length and the checksum of its payload. -/
structure Sealed (maxPayload : UInt32) (f : Frame) : Prop where
  magic : f.header.magic = frameMagic
  version : f.header.version = protocolVersion
  length : f.header.payloadLength.toNat = f.payload.length
  crc : f.header.payloadCrc = Crc32c.compute f.payload
  room : f.payload.length ≤ maxPayload.toNat

variable {maxPayload : UInt32} {f : Frame} {view : Bytes}

/-- A sealed frame is written as it stands. -/
theorem Sealed.encode_eq (h : f.Sealed maxPayload) : f.encode = f.header.bytes ++ f.payload := by
  have hlength : UInt32.ofNat f.payload.length = f.header.payloadLength := by
    rw [← h.length, UInt32.ofNat_toNat]
  simp only [encode, encodeFrame, FrameHeader.bytes, List.append_assoc, hlength, h.crc]

/-- The length of a sealed frame on the wire. -/
theorem Sealed.length_encode (h : f.Sealed maxPayload) : f.encode.length = f.size := by
  rw [h.encode_eq, List.length_append, FrameHeader.length_bytes]
  rfl

end Frame

/-- The beginning of a frame that is not complete. -/
def Unfinished (maxPayload : UInt32) (view : Bytes) : Prop :=
  view.length < frameHeaderSize ∨ (FrameHeader.read view).magic = frameMagic ∧
    (FrameHeader.read view).version = protocolVersion ∧
    (FrameHeader.read view).payloadLength ≤ maxPayload ∧
    view.length < frameHeaderSize + (FrameHeader.read view).payloadLength.toNat

namespace FrameStream

variable {maxPayload : UInt32} {f : Frame} {view : Bytes} {n : ℕ}

/-- More bytes are waited for where the view is unfinished. -/
theorem next_eq_none : next maxPayload view = .ok none ↔ Unfinished maxPayload view := by
  unfold next Unfinished
  by_cases hshort : view.length < frameHeaderSize
  · simp only [hshort, if_true, pure_eq_ok, true_or]
  · simp only [hshort, if_false, guard_bind_eq_ok, not_not, false_or, gt_iff_lt, UInt32.not_lt,
      FrameHeader.read]
    by_cases hcut : view.length < frameHeaderSize + (getU32 view 20).toNat
    · simp only [hcut, if_true, pure_eq_ok, and_true]
    · simp only [hcut, if_false, guard_bind_eq_ok, pure_eq_ok]
      simp

/-- A frame is taken where a sealed one is in front. -/
theorem next_eq_some : next maxPayload view = .ok (some (f, n)) ↔
    f.Sealed maxPayload ∧ n = f.size ∧ ∃ rest, view = f.encode ++ rest := by
  constructor
  · intro h
    unfold next at h
    by_cases hshort : view.length < frameHeaderSize
    · simp [hshort, pure_eq_ok] at h
    · simp only [hshort, if_false, guard_bind_eq_ok, not_not] at h
      obtain ⟨hmagic, hversion, hroom, h⟩ := h
      by_cases hcut : view.length < frameHeaderSize + (getU32 view 20).toNat
      · simp [hcut, pure_eq_ok] at h
      · simp only [hcut, if_false, guard_bind_eq_ok, pure_eq_ok, not_not, Option.some.injEq,
          Prod.mk.injEq] at h
        obtain ⟨hcrc, rfl, rfl⟩ := h
        -- the payload is as long as the header says
        have hlength : ((view.drop frameHeaderSize).take (getU32 view 20).toNat).length =
            (getU32 view 20).toNat := by
          simp only [List.length_take, List.length_drop]
          omega
        have hle : (getU32 view 20).toNat ≤ maxPayload.toNat := by
          simpa [UInt32.lt_iff_toNat_lt] using hroom
        have hf : Frame.Sealed maxPayload ⟨FrameHeader.read view,
            (view.drop frameHeaderSize).take (getU32 view 20).toNat⟩ :=
          ⟨hmagic, hversion, hlength.symm, hcrc.symm, hlength.trans_le hle⟩
        refine ⟨hf, ?_, view.drop (frameHeaderSize + (getU32 view 20).toNat), ?_⟩
        · rw [Frame.size, hlength]
        · refine (FrameHeader.eq_bytes_read (not_lt.mp hshort)).trans ?_
          refine Eq.trans ?_ (congrArg (· ++ _) hf.encode_eq.symm)
          simp only [List.append_assoc, ← List.drop_drop, List.take_append_drop]
  · rintro ⟨hf, rfl, rest, rfl⟩
    rw [hf.encode_eq, List.append_assoc]
    have hread := FrameHeader.read_append f.header (f.payload ++ rest)
    have hdrop : (f.header.bytes ++ (f.payload ++ rest)).drop frameHeaderSize =
        f.payload ++ rest := List.drop_left' f.header.length_bytes
    have hlong : (f.header.bytes ++ (f.payload ++ rest)).length =
        frameHeaderSize + (f.payload.length + rest.length) := by
      simp only [List.length_append, FrameHeader.length_bytes]
    generalize f.header.bytes ++ (f.payload ++ rest) = view at *
    -- a sealed frame passes each check of the header in turn
    have hroom : ¬ maxPayload < getU32 view 20 := by
      rw [UInt32.not_lt, show getU32 view 20 = f.header.payloadLength from
        congrArg FrameHeader.payloadLength hread, UInt32.le_iff_toNat_le, hf.length]
      exact hf.room
    have hlength : (getU32 view 20).toNat = f.payload.length :=
      (congrArg (fun h : FrameHeader => h.payloadLength.toNat) hread).trans hf.length
    have hshort : ¬ view.length < frameHeaderSize := by omega
    have hcut : ¬ view.length < frameHeaderSize + (getU32 view 20).toNat := by omega
    unfold next
    simp only [hshort, if_false, guard_bind_eq_ok, not_not, hcut, pure_eq_ok, gt_iff_lt]
    refine ⟨(congrArg FrameHeader.magic hread).trans hf.magic,
      (congrArg FrameHeader.version hread).trans hf.version, hroom, ?_, ?_⟩
    · rw [hdrop, hlength, List.take_left]
      exact hf.crc.symm.trans (congrArg FrameHeader.payloadCrc hread).symm
    · rw [hdrop, hlength, List.take_left, Frame.size]
      exact congrArg (fun h => some (Frame.mk h f.payload, _)) hread

/-! ### Feeding a chunk -/

/-- The bytes of some frames. -/
def sent (fs : List Frame) : Bytes := fs.flatMap Frame.encode

theorem sent_cons (f : Frame) (fs : List Frame) : sent (f :: fs) = f.encode ++ sent fs := rfl

/-- Frames are no more than the bytes they take. -/
theorem length_le_sent {fs : List Frame} (hfs : ∀ f ∈ fs, f.Sealed maxPayload) :
    fs.length ≤ (sent fs).length := by
  refine length_le_flatMap fun f hf => List.ne_nil_of_length_pos ?_
  rw [(hfs f hf).length_encode, Frame.size, frameHeaderSize]
  omega

/-- Draining takes every whole frame and leaves what is behind. -/
theorem drain_sent {fs : List Frame} {rest : Bytes} {s : FrameStream}
    (hfs : ∀ f ∈ fs, f.Sealed s.maxPayload) (hview : s.buffer.drop s.consumed = sent fs ++ rest)
    (out : List Frame) (fuel : ℕ) : ∃ consumed, s.drain out (fs.length + fuel) =
      drain { s with consumed } (out ++ fs) fuel ∧ s.buffer.drop consumed = rest := by
  induction fs generalizing s out with
  | nil =>
    refine ⟨s.consumed, ?_, hview⟩
    rw [List.length_nil, Nat.zero_add, List.append_nil]
  | cons f fs ih =>
    rw [List.forall_mem_cons] at hfs
    rw [sent_cons, List.append_assoc] at hview
    have hnext : next s.maxPayload (s.buffer.drop s.consumed) = .ok (some (f, f.size)) :=
      next_eq_some.mpr ⟨hfs.1, rfl, _, hview⟩
    have hdrop : s.buffer.drop (s.consumed + f.size) = sent fs ++ rest := by
      rw [← List.drop_drop, hview, ← hfs.1.length_encode, List.drop_left]
    obtain ⟨consumed, hdrain, hrest⟩ :=
      @ih { s with consumed := s.consumed + f.size } hfs.2 hdrop (out ++ [f])
    refine ⟨consumed, ?_, hrest⟩
    have hfuel : (f :: fs).length + fuel = fs.length + fuel + 1 := by
      rw [List.length_cons]
      omega
    rw [hfuel, drain, hnext]
    simp only [hdrain, List.append_assoc, List.singleton_append]

/-- What the loop has taken off when it stops without an error. -/
theorem drain_eq_ok {s s' : FrameStream} {out out' : List Frame} {fuel : ℕ}
    (h : s.drain out fuel = (s', out', .ok ()))
    (hfuel : (s.buffer.drop s.consumed).length < fuel) :
    ∃ fs rest, out' = out ++ fs ∧ (∀ f ∈ fs, f.Sealed s.maxPayload) ∧
      s.buffer.drop s.consumed = sent fs ++ rest ∧ Unfinished s.maxPayload rest ∧
      s' = ⟨rest, 0, s.maxPayload⟩ := by
  induction fuel generalizing s out with
  | zero => omega
  | succ fuel ih =>
    rw [drain] at h
    split at h
    · cases h
    · rename_i hnext
      obtain ⟨rfl, hout⟩ := Prod.mk.inj h
      obtain ⟨rfl, -⟩ := Prod.mk.inj hout
      exact ⟨[], _, (List.append_nil _).symm, nofun, rfl, next_eq_none.mp hnext, rfl⟩
    · rename_i f n hnext
      obtain ⟨hf, rfl, rest, hview⟩ := next_eq_some.mp hnext
      have hdrop : s.buffer.drop (s.consumed + f.size) = rest := by
        rw [← List.drop_drop, hview, ← hf.length_encode, List.drop_left]
      have hsize : (s.buffer.drop s.consumed).length = f.size + rest.length := by
        rw [hview, List.length_append, hf.length_encode]
      have hpos : 0 < f.size := by
        rw [Frame.size, frameHeaderSize]
        omega
      obtain ⟨fs, rest', rfl, hfs, hrest, hunfinished, rfl⟩ := ih h (by simp only [hdrop]; omega)
      simp only [hdrop] at hrest
      refine ⟨f :: fs, rest', by simp, List.forall_mem_cons.mpr ⟨hf, hfs⟩, ?_, hunfinished, rfl⟩
      rw [hview, hrest, sent_cons, List.append_assoc]

/-- A chunk is taken if and only if it fits and is made, with what was buffered, of frames and the
beginning of one. -/
theorem feed_eq_ok {buffer chunk : Bytes} {s' : FrameStream} {out : List Frame} :
    feed ⟨buffer, 0, maxPayload⟩ chunk = (s', out, .ok ()) ↔
      buffer.length + chunk.length ≤ maxPayload.toNat + frameHeaderSize ∧
      (∀ f ∈ out, f.Sealed maxPayload) ∧ ∃ rest, buffer ++ chunk = sent out ++ rest ∧
        Unfinished maxPayload rest ∧ s' = ⟨rest, 0, maxPayload⟩ := by
  have hbuffered : buffered ⟨buffer, 0, maxPayload⟩ = buffer.length := rfl
  have hfuel : buffered ⟨buffer ++ chunk, 0, maxPayload⟩ = (buffer ++ chunk).length := rfl
  rw [feed, hbuffered]
  by_cases hlong : buffer.length + chunk.length > maxPayload.toNat + frameHeaderSize
  · simp only [hlong, if_true, Prod.mk.injEq, reduceCtorEq, and_false, false_iff]
    omega
  · simp only [hlong, if_false, hfuel]
    constructor
    · intro h
      obtain ⟨fs, rest, rfl, hfs, hview, hunfinished, rfl⟩ := drain_eq_ok h (by simp)
      exact ⟨not_lt.mp hlong, hfs, rest, hview, hunfinished, rfl⟩
    · rintro ⟨-, hfs, rest, hview, hunfinished, rfl⟩
      have hle := length_le_sent hfs
      obtain ⟨fuel, hturns⟩ : ∃ fuel, (buffer ++ chunk).length + 1 = out.length + (fuel + 1) := by
        refine ⟨(buffer ++ chunk).length - out.length, ?_⟩
        rw [hview, List.length_append]
        omega
      obtain ⟨consumed, hdrain, hrest⟩ := @drain_sent out rest ⟨buffer ++ chunk, 0, maxPayload⟩ hfs
        hview [] (fuel + 1)
      simp only at hrest
      rw [hturns, hdrain, drain, hrest, next_eq_none.mpr hunfinished, compact]
      simp only [hrest, List.nil_append]

/-- The frames of the chunks before the first that is refused. -/
def flow (s : FrameStream) : List Bytes → List Frame
  | [] | [] :: _ => []
  | chunk :: socket =>
    match s.feed chunk with
    | (_, _, .error _) => []
    | (s', out, .ok ()) => out ++ flow s' socket

/-- The flow of a first chunk and the rest. -/
theorem flow_cons {s : FrameStream} {chunk : Bytes} {socket : List Bytes} (hne : chunk ≠ []) :
    s.flow (chunk :: socket) = match s.feed chunk with
      | (_, _, .error _) => []
      | (s', out, .ok ()) => out ++ flow s' socket := by
  cases chunk with
  | nil => exact absurd rfl hne
  | cons b bs => rfl

/-- The flow goes on behind a chunk that is accepted. -/
theorem flow_of_ok {s s' : FrameStream} {chunk : Bytes} {socket : List Bytes} {out : List Frame}
    (hne : chunk ≠ []) (h : s.feed chunk = (s', out, .ok ())) :
    s.flow (chunk :: socket) = out ++ s'.flow socket := by
  rw [flow_cons hne, h]

/-- The flow ends at a chunk that is refused. -/
theorem flow_of_refused {s : FrameStream} {chunk : Bytes} {socket : List Bytes} (hne : chunk ≠ [])
    (h : ∀ s' out, s.feed chunk ≠ (s', out, .ok ())) : s.flow (chunk :: socket) = [] := by
  rw [flow_cons hne]
  split
  · rfl
  · rename_i s' out hfeed
    exact absurd hfeed (h s' out)

/-- What flows is at the front of the stream. -/
theorem flow_sent (socket : List Bytes) (buffer : Bytes) :
    (∀ f ∈ flow ⟨buffer, 0, maxPayload⟩ socket, f.Sealed maxPayload) ∧
      ∃ rest, buffer ++ socket.flatten = sent (flow ⟨buffer, 0, maxPayload⟩ socket) ++ rest := by
  induction socket generalizing buffer with
  | nil => exact ⟨nofun, _, rfl⟩
  | cons chunk socket ih =>
    by_cases hne : chunk = []
    · subst hne
      exact ⟨nofun, _, rfl⟩
    · by_cases hok : ∃ s' out, feed ⟨buffer, 0, maxPayload⟩ chunk = (s', out, .ok ())
      · obtain ⟨s', out, hfeed⟩ := hok
        obtain ⟨-, hout, rest, hview, -, rfl⟩ := feed_eq_ok.mp hfeed
        obtain ⟨hflow, rest', hrest⟩ := ih rest
        rw [flow_of_ok hne hfeed]
        refine ⟨fun f hf => (List.mem_append.mp hf).elim (hout f) (hflow f), rest', ?_⟩
        rw [List.flatten_cons, ← List.append_assoc, hview, List.append_assoc, hrest, sent, sent,
          sent,
          List.flatMap_append, List.append_assoc]
      · simp only [not_exists] at hok
        rw [flow_of_refused hne hok]
        exact ⟨nofun, _, rfl⟩

end FrameStream

/-! ### The channel -/

namespace FrameChannel

variable {c : FrameChannel} {f : Frame} {fs : List Frame}

/-- What a channel is going to deliver before it reports an error. -/
def coming (c : FrameChannel) : List Frame :=
  c.pending ++ if c.isOpen then c.stream.flow c.socket else []

/-- The next answers of `receive`. -/
def receives (c : FrameChannel) : ℕ → List (Except Status Frame)
  | 0 => []
  | n + 1 => c.receive.2 :: c.receive.1.receives n

/-- Waiting looks at the first chunk, and on when that gave no frame. -/
theorem await_cons {chunk : Bytes} {socket : List Bytes} (hne : chunk ≠ []) :
    c.await (chunk :: socket) = match c.stream.feed chunk with
      | (stream, _, .error status) => ({ c with socket, stream, isOpen := false }, .error status)
      | (stream, [], .ok ()) => await { c with stream } socket
      | (stream, first :: others, .ok ()) =>
        ({ c with
            socket, stream, pending := c.pending ++ others
            framesReceived := c.framesReceived + 1 }, .ok first) := by
  cases chunk with
  | nil => exact absurd rfl hne
  | cons b bs => rfl

/-- Waiting gives the first frame of the flow. -/
theorem await_of_flow (socket : List Bytes) (hpending : c.pending = []) (hopen : c.isOpen = true)
    (h : c.stream.flow socket = f :: fs) :
    (c.await socket).2 = .ok f ∧ (c.await socket).1.coming = fs := by
  induction socket generalizing c with
  | nil => cases h
  | cons chunk socket ih =>
    by_cases hne : chunk = []
    · subst hne
      cases h
    · rw [FrameStream.flow_cons hne] at h
      rw [await_cons hne]
      cases hfeed : c.stream.feed chunk with
      | mk stream r =>
        obtain ⟨out, status | ⟨⟩⟩ := r
        · simp [hfeed] at h
        · simp only [hfeed] at h
          cases out with
          | nil => exact @ih { c with stream } hpending hopen h
          | cons first others =>
            obtain ⟨rfl, hrest⟩ := List.cons.inj h
            refine ⟨rfl, ?_⟩
            simp only [coming, hpending, hopen, if_true, List.nil_append]
            exact hrest

/-- Waiting fails where the flow has no frame. -/
theorem await_of_no_flow (socket : List Bytes) (h : c.stream.flow socket = []) :
    ∃ status, (c.await socket).2 = .error status := by
  induction socket generalizing c with
  | nil => exact ⟨_, rfl⟩
  | cons chunk socket ih =>
    by_cases hne : chunk = []
    · subst hne
      exact ⟨_, rfl⟩
    · rw [FrameStream.flow_cons hne] at h
      rw [await_cons hne]
      cases hfeed : c.stream.feed chunk with
      | mk stream r =>
        obtain ⟨out, status | ⟨⟩⟩ := r
        · exact ⟨status, rfl⟩
        · simp only [hfeed, List.append_eq_nil_iff] at h
          obtain ⟨rfl, hrest⟩ := h
          exact @ih { c with stream } hrest

/-- A call of `receive` takes the first frame off what is coming. -/
theorem receive_of_coming (h : c.coming = f :: fs) :
    c.receive.2 = .ok f ∧ c.receive.1.coming = fs := by
  unfold receive
  split
  · rename_i frame pending hpending
    simp only [coming, hpending, List.cons_append] at h
    obtain ⟨rfl, hrest⟩ := List.cons.inj h
    exact ⟨rfl, hrest⟩
  · rename_i hpending
    cases hopen : c.isOpen with
    | false => simp [coming, hpending, hopen] at h
    | true =>
      simp only [coming, hpending, hopen, if_true, List.nil_append] at h
      simpa using await_of_flow c.socket hpending hopen h

/-- With nothing coming, a call of `receive` reports an error. -/
theorem receive_of_nothing (h : c.coming = []) : ∃ status, c.receive.2 = .error status := by
  obtain ⟨hpending, hflow⟩ := List.append_eq_nil_iff.mp h
  simp only [receive, hpending]
  cases hopen : c.isOpen with
  | false => exact ⟨_, rfl⟩
  | true =>
    rw [hopen, if_pos rfl] at hflow
    simpa using await_of_no_flow c.socket hflow

/-- The frames received are those that are coming. -/
theorem receives_eq_iff : c.receives fs.length = fs.map .ok ↔ fs <+: c.coming := by
  induction fs generalizing c with
  | nil => simp [receives]
  | cons f fs ih =>
    rw [List.length_cons, receives, List.map_cons, List.cons.injEq]
    cases hcoming : c.coming with
    | nil =>
      obtain ⟨status, hstatus⟩ := receive_of_nothing hcoming
      simp [hstatus]
    | cons g gs =>
      obtain ⟨hanswer, hrest⟩ := receive_of_coming hcoming
      rw [hanswer, ih, hrest, Except.ok.injEq, List.cons_prefix_cons, eq_comm]

/-- Behind the last frame a receive fails. -/
theorem receives_last (h : c.coming = fs) :
    ∃ status, c.receives (fs.length + 1) = fs.map .ok ++ [.error status] := by
  induction fs generalizing c with
  | nil =>
    obtain ⟨status, hstatus⟩ := receive_of_nothing h
    exact ⟨status, by simp [receives, hstatus]⟩
  | cons f fs ih =>
    obtain ⟨hanswer, hrest⟩ := receive_of_coming h
    obtain ⟨status, hstatus⟩ := ih hrest
    refine ⟨status, ?_⟩
    rw [List.length_cons, receives, hanswer, hstatus, List.map_cons, List.cons_append]

end FrameChannel

/-! ### When the frames are delivered -/

open FrameStream (sent)

/-- Bytes that a stream takes: frames, and the beginning of one. -/
def Framed (maxPayload : UInt32) (view : Bytes) : Prop :=
  ∃ fs rest, (∀ f ∈ fs, f.Sealed maxPayload) ∧ view = sent fs ++ rest ∧ Unfinished maxPayload rest

/-- The number of bytes of some frames. -/
def total (fs : List Frame) : ℕ := (fs.map Frame.size).sum

/-- Where the frame begins that an offset is in. -/
def start : List Frame → ℕ → ℕ
  | [], _ => 0
  | f :: fs, n => if n < f.size then 0 else f.size + start fs (n - f.size)

/-- Every chunk that carries a byte of the frames reaches not further than a maximal frame from the
beginning of the frame it goes on with; and what follows the frames in the chunk that ends them is
framed. The chunks begin at an offset. -/
def Timely (maxPayload : UInt32) (fs : List Frame) (tail : Bytes) : ℕ → List Bytes → Prop
  | _, [] => True
  | n, chunk :: chunks =>
    (n < total fs →
      n + chunk.length ≤ start fs n + (maxPayload.toNat + frameHeaderSize) ∧
      (total fs ≤ n + chunk.length →
        Framed maxPayload (tail.take (n + chunk.length - total fs)))) ∧
    Timely maxPayload fs tail (n + chunk.length) chunks

section Timely

variable {maxPayload : UInt32} {f : Frame} {fs gs : List Frame} {tail rest : Bytes}
variable {chunks : List Bytes} {n : ℕ}

theorem total_cons : total (f :: fs) = f.size + total fs := rfl

/-- Sizes add up. -/
theorem total_append : total (gs ++ fs) = total gs + total fs := by
  rw [total, total, total, List.map_append, List.sum_append]

/-- The length of sealed frames on the wire. -/
theorem length_sent (hfs : ∀ f ∈ fs, f.Sealed maxPayload) : (sent fs).length = total fs := by
  induction fs with
  | nil => rfl
  | cons f fs ih =>
    rw [List.forall_mem_cons] at hfs
    rw [FrameStream.sent_cons, List.length_append, hfs.1.length_encode, ih hfs.2, total_cons]

/-- Where a frame starts behind others. -/
theorem start_append (n : ℕ) : start (gs ++ fs) (total gs + n) = total gs + start fs n := by
  induction gs with
  | nil => simp [total]
  | cons g gs ih =>
    have hnot : ¬ g.size + total gs + n < g.size := by omega
    have hsub : g.size + total gs + n - g.size = total gs + n := by omega
    rw [List.cons_append, start, total_cons, if_neg hnot, hsub, ih]
    omega

/-- Once the frames are complete nothing is asked for. -/
theorem timely_of_le (h : total fs ≤ n) : Timely maxPayload fs tail n chunks := by
  induction chunks generalizing n with
  | nil => trivial
  | cons chunk chunks ih => exact ⟨fun hn => by omega, ih (by omega)⟩

/-- Frames that are complete do not matter. -/
theorem timely_append :
    Timely maxPayload (gs ++ fs) tail (total gs + n) chunks ↔
      Timely maxPayload fs tail n chunks := by
  induction chunks generalizing n with
  | nil => exact Iff.rfl
  | cons chunk chunks ih =>
    have hlt : total gs + n < total (gs ++ fs) ↔ n < total fs := by
      rw [total_append]
      omega
    have hroom : total gs + n + chunk.length ≤
        start (gs ++ fs) (total gs + n) + (maxPayload.toNat + frameHeaderSize) ↔
        n + chunk.length ≤ start fs n + (maxPayload.toNat + frameHeaderSize) := by
      rw [start_append]
      omega
    have hle : total (gs ++ fs) ≤ total gs + n + chunk.length ↔ total fs ≤ n + chunk.length := by
      rw [total_append]
      omega
    have hover : total gs + n + chunk.length - total (gs ++ fs) = n + chunk.length - total fs := by
      rw [total_append]
      omega
    rw [Timely, Timely, hlt, hroom, hle, hover, Nat.add_assoc, ih]

/-- The frames that end within so many bytes, and the one that does not. -/
theorem exists_split (fs : List Frame) (n : ℕ) : ∃ gs hs, fs = gs ++ hs ∧ total gs ≤ n ∧
    (hs = [] ∨ ∃ h hs', hs = h :: hs' ∧ n < total gs + h.size) := by
  induction fs generalizing n with
  | nil => exact ⟨[], [], rfl, Nat.zero_le n, .inl rfl⟩
  | cons f fs ih =>
    by_cases hn : n < f.size
    · exact ⟨[], f :: fs, rfl, Nat.zero_le n, .inr ⟨f, fs, rfl, by simpa [total] using hn⟩⟩
    · obtain ⟨gs, hs, rfl, hle, hrest⟩ := ih (n - f.size)
      refine ⟨f :: gs, hs, rfl, ?_, ?_⟩
      · rw [total_cons]
        omega
      · refine hrest.imp_right ?_
        rintro ⟨h, hs', rfl, hlt⟩
        refine ⟨h, hs', rfl, ?_⟩
        rw [total_cons]
        omega

/-- The beginning of a frame is unfinished. -/
theorem Frame.Sealed.unfinished (hf : f.Sealed maxPayload) {view : Bytes}
    (h : view ++ rest = f.encode ++ tail) (hshort : view.length < f.size) :
    Unfinished maxPayload view := by
  by_cases hheader : view.length < frameHeaderSize
  · exact .inl hheader
  · rw [not_lt] at hheader
    have hview := FrameHeader.eq_bytes_read hheader
    have hread : FrameHeader.read view = f.header := by
      have hfront : (FrameHeader.read view).bytes ++ (view.drop frameHeaderSize ++ rest) =
          f.header.bytes ++ (f.payload ++ tail) := by
        rw [← List.append_assoc, ← hview, h, hf.encode_eq, List.append_assoc]
      exact FrameHeader.bytes_injective
        (List.append_inj hfront (by simp only [FrameHeader.length_bytes])).1
    refine .inr ⟨hread ▸ hf.magic, hread ▸ hf.version, ?_, ?_⟩
    · rw [hread, UInt32.le_iff_toNat_le, hf.length]
      exact hf.room
    · rw [hread, hf.length]
      exact hshort

/-- Frames come off a stream in one way only. -/
theorem exists_of_sent_eq (hfs : ∀ f ∈ fs, f.Sealed maxPayload)
    (hgs : ∀ f ∈ gs, f.Sealed maxPayload) (hrest : Unfinished maxPayload rest)
    (h : sent fs ++ tail = sent gs ++ rest) :
    ∃ more, gs = fs ++ more ∧ tail = sent more ++ rest := by
  induction fs generalizing gs with
  | nil => exact ⟨gs, rfl, h⟩
  | cons f fs ih =>
    rw [List.forall_mem_cons] at hfs
    rw [FrameStream.sent_cons, List.append_assoc] at h
    have hnext : FrameStream.next maxPayload (sent gs ++ rest) = .ok (some (f, f.size)) :=
      FrameStream.next_eq_some.mpr ⟨hfs.1, rfl, _, h.symm⟩
    cases gs with
    | nil =>
      have hnone := FrameStream.next_eq_none.mpr hrest
      rw [show sent [] ++ rest = rest from rfl, hnone] at hnext
      cases hnext
    | cons g gs =>
      rw [List.forall_mem_cons] at hgs
      rw [FrameStream.sent_cons, List.append_assoc] at h hnext
      have hother : FrameStream.next maxPayload (g.encode ++ (sent gs ++ rest)) =
          .ok (some (g, g.size)) := FrameStream.next_eq_some.mpr ⟨hgs.1, rfl, _, rfl⟩
      rw [hother] at hnext
      obtain ⟨rfl, -⟩ := Prod.mk.inj (Option.some.inj (Except.ok.inj hnext))
      obtain ⟨more, rfl, hmore⟩ := ih hfs.2 hgs.2 (List.append_cancel_left h)
      exact ⟨more, rfl, hmore⟩

/-- A stream that is cut off at some length. -/
theorem exists_of_append_eq {view later front back : Bytes} (h : view ++ later = front ++ back)
    (hle : front.length ≤ view.length) :
    ∃ middle, view = front ++ middle ∧ middle ++ later = back ∧
      middle = back.take (view.length - front.length) := by
  obtain ⟨middle, rfl⟩ : front <+: view :=
    List.prefix_of_prefix_length_le ⟨back, h.symm⟩ ⟨later, rfl⟩ hle
  rw [List.append_assoc] at h
  have hback := List.append_cancel_left h
  refine ⟨middle, rfl, hback, ?_⟩
  rw [← hback, List.length_append, Nat.add_sub_cancel_left, List.take_left]

/-- The frames on a stream are delivered if and only if the chunks are timely. -/
theorem prefix_flow_iff (hne : ∀ chunk ∈ chunks, chunk ≠ []) {buffer : Bytes}
    (hfs : ∀ f ∈ fs, f.Sealed maxPayload)
    (hview : buffer ++ chunks.flatten = sent fs ++ tail)
    (hbuffer : fs = [] ∨ ∃ f fs', fs = f :: fs' ∧ buffer.length < f.size) :
    fs <+: FrameStream.flow ⟨buffer, 0, maxPayload⟩ chunks ↔
      Timely maxPayload fs tail buffer.length chunks := by
  induction chunks generalizing buffer fs with
  | nil =>
    obtain rfl | ⟨f, fs, rfl, hshort⟩ := hbuffer
    · simp [Timely]
    · have hlength := congrArg List.length hview
      rw [List.forall_mem_cons] at hfs
      simp only [List.flatten_nil, List.append_nil, List.length_append, FrameStream.sent_cons,
        hfs.1.length_encode] at hlength
      omega
  | cons chunk chunks ih =>
    rw [List.forall_mem_cons] at hne
    rw [List.flatten_cons, ← List.append_assoc] at hview
    obtain rfl | ⟨f, fs', hcons, hshort⟩ := hbuffer
    · exact iff_of_true List.nil_prefix (timely_of_le (Nat.zero_le _))
    have hstart : start fs buffer.length = 0 := by rw [hcons, start, if_pos hshort]
    have htotal : f.size ≤ total fs := by
      rw [hcons, total_cons]
      omega
    have hlength : (buffer ++ chunk).length = buffer.length + chunk.length := List.length_append
    -- a chunk that is refused takes its frames with it
    have hrefused : (∀ s' out, FrameStream.feed ⟨buffer, 0, maxPayload⟩ chunk ≠ (s', out, .ok ())) →
        ¬ fs <+: FrameStream.flow ⟨buffer, 0, maxPayload⟩ (chunk :: chunks) := by
      intro hno
      rw [FrameStream.flow_of_refused hne.1 hno, hcons]
      simp
    by_cases hfit : buffer.length + chunk.length ≤ maxPayload.toNat + frameHeaderSize
    · obtain ⟨gs, hs, hsplit, hle, hcases⟩ := exists_split fs (buffer ++ chunk).length
      have hsealed : (∀ g ∈ gs, g.Sealed maxPayload) ∧ ∀ g ∈ hs, g.Sealed maxPayload := by
        rw [hsplit] at hfs
        exact List.forall_mem_append.mp hfs
      have hfront : buffer ++ chunk ++ chunks.flatten = sent gs ++ (sent hs ++ tail) := by
        rw [hview, hsplit, sent, sent, sent, List.flatMap_append, List.append_assoc]
      obtain ⟨middle, hmiddle, hlater, hcut⟩ :=
        exists_of_append_eq hfront (by rw [length_sent hsealed.1]; exact hle)
      rw [length_sent hsealed.1] at hcut
      have hsizes : (buffer ++ chunk).length = total gs + middle.length := by
        rw [hmiddle, List.length_append, length_sent hsealed.1]
      obtain rfl | ⟨h, hs', rfl, hlt⟩ := hcases
      · -- the chunk ends the frames
        rw [List.append_nil] at hsplit
        subst hsplit
        have htail : middle = tail.take (buffer.length + chunk.length - total fs) := by
          rw [hcut, hlength]
          rfl
        have hiff : Timely maxPayload fs tail buffer.length (chunk :: chunks) ↔
            Framed maxPayload middle := by
          rw [Timely, hstart, ← htail]
          constructor
          · rintro ⟨hnow, -⟩
            exact (hnow (by omega)).2 (by omega)
          · exact fun hframed => ⟨fun _ => ⟨by omega, fun _ => hframed⟩, timely_of_le (by omega)⟩
        rw [hiff]
        constructor
        · intro hleads
          by_contra hbroken
          refine hrefused (fun s' out hfeed => hbroken ?_) hleads
          obtain ⟨-, hout, rest, hrest, hunfinished, -⟩ := FrameStream.feed_eq_ok.mp hfeed
          obtain ⟨more, rfl, hmore⟩ :=
            exists_of_sent_eq hsealed.1 hout hunfinished (hmiddle.symm.trans hrest)
          exact ⟨more, rest, (List.forall_mem_append.mp hout).2, hmore, hunfinished⟩
        · rintro ⟨more, rest, hmore, rfl, hunfinished⟩
          have hfeed : FrameStream.feed ⟨buffer, 0, maxPayload⟩ chunk =
              (⟨rest, 0, maxPayload⟩, fs ++ more, .ok ()) := by
            refine FrameStream.feed_eq_ok.mpr ⟨hfit, List.forall_mem_append.mpr ⟨hsealed.1, hmore⟩,
              rest, ?_, hunfinished, rfl⟩
            rw [hmiddle, sent, sent, sent, List.flatMap_append, List.append_assoc]
          rw [FrameStream.flow_of_ok hne.1 hfeed, List.append_assoc]
          exact List.prefix_append ..
      · -- the chunk ends in a frame
        have hunfinished : Unfinished maxPayload middle := by
          refine (hsealed.2 h List.mem_cons_self).unfinished
            (hlater.trans (List.append_assoc ..)) ?_
          omega
        have hfeed : FrameStream.feed ⟨buffer, 0, maxPayload⟩ chunk =
            (⟨middle, 0, maxPayload⟩, gs, .ok ()) :=
          FrameStream.feed_eq_ok.mpr ⟨hfit, hsealed.1, middle, hmiddle, hunfinished, rfl⟩
        have hmore : total gs + h.size ≤ total fs := by
          rw [hsplit, total_append, total_cons]
          omega
        have hoffset : buffer.length + chunk.length = total gs + middle.length := by omega
        have hiff : Timely maxPayload fs tail buffer.length (chunk :: chunks) ↔
            Timely maxPayload (h :: hs') tail middle.length chunks := by
          rw [Timely, hstart, hoffset, ← @timely_append maxPayload (h :: hs') gs, ← hsplit]
          exact and_iff_right fun _ => ⟨by omega, fun hend => by omega⟩
        rw [hiff, FrameStream.flow_of_ok hne.1 hfeed, hsplit, List.prefix_append_right_inj]
        exact ih hne.2 hsealed.2 hlater (.inr ⟨h, hs', rfl, by omega⟩)
    · refine iff_of_false (hrefused fun s' out hfeed => ?_) fun htimely => ?_
      · exact hfit (FrameStream.feed_eq_ok.mp hfeed).1
      · have hroom := (htimely.1 (by omega)).1
        omega

end Timely

/-- A message as it is sent, with the length and the checksum that `encodeFrame` puts in. -/
def Frame.of (header : FrameHeader) (payload : Bytes) : Frame where
  header :=
    { header with payloadLength := .ofNat payload.length, payloadCrc := Crc32c.compute payload }
  payload

/-- A message for this build whose payload a stream takes. -/
structure Sendable (maxPayload : UInt32) (header : FrameHeader) (payload : Bytes) : Prop where
  magic : header.magic = frameMagic
  version : header.version = protocolVersion
  room : payload.length ≤ maxPayload.toNat

/-- What may be sent is sealed. -/
theorem Sendable.sealed {maxPayload : UInt32} {header : FrameHeader} {payload : Bytes}
    (h : Sendable maxPayload header payload) : (Frame.of header payload).Sealed maxPayload where
  magic := h.magic
  version := h.version
  length := by
    have hlt : payload.length < 2 ^ 32 := h.room.trans_lt maxPayload.toNat_lt
    rw [Frame.of, UInt32.toNat_ofNat', Nat.mod_eq_of_lt hlt]
  crc := rfl
  room := h.room

/-- The channel delivers the frames, in order and unchanged, before it reports any error; and it
reports one after them unless a frame is at the front of what follows. -/
structure FrameChannel.Delivers (c : FrameChannel) (fs : List Frame) (tail : Bytes) : Prop where
  frames : c.receives fs.length = fs.map .ok
  exact : (∀ f : Frame, f.Sealed c.stream.maxPayload → ¬ f.encode <+: tail) →
    ∃ status, c.receives (fs.length + 1) = fs.map .ok ++ [.error status]

/-- A channel over a stream that begins with some messages, delivered in whatever chunks: the
messages are delivered if and only if the chunks are timely. -/
theorem delivers_iff {maxPayload : UInt32} {messages : List (FrameHeader × Bytes)} {tail : Bytes}
    {chunks : List Bytes} (hmessages : ∀ m ∈ messages, Sendable maxPayload m.1 m.2)
    (hchunks : ∀ chunk ∈ chunks, chunk ≠ [] ∧ chunk.length ≤ receiveBufferSize)
    (hstream : chunks.flatten = messages.flatMap (fun m => encodeFrame m.1 m.2) ++ tail) :
    FrameChannel.Delivers { socket := chunks, stream := { maxPayload } }
        (messages.map fun m => .of m.1 m.2) tail ↔
      Timely maxPayload (messages.map fun m => .of m.1 m.2) tail 0 chunks := by
  generalize hfs : messages.map (fun m => Frame.of m.1 m.2) = fs
  have hsealed : ∀ f ∈ fs, f.Sealed maxPayload := by
    rw [← hfs, List.forall_mem_map]
    exact fun m hm => (hmessages m hm).sealed
  have hview : ([] : Bytes) ++ chunks.flatten = sent fs ++ tail := by
    rw [← hfs, sent, List.flatMap_map]
    exact hstream
  have hbuffer : fs = [] ∨ ∃ f fs', fs = f :: fs' ∧ ([] : Bytes).length < f.size := by
    cases fs with
    | nil => exact .inl rfl
    | cons f fs' =>
      refine .inr ⟨f, fs', rfl, ?_⟩
      rw [List.length_nil, Frame.size, frameHeaderSize]
      omega
  have hne : ∀ chunk ∈ chunks, chunk ≠ [] := fun chunk hmem => (hchunks chunk hmem).1
  have hiff := prefix_flow_iff hne hsealed hview hbuffer
  have hcoming : FrameChannel.coming { socket := chunks, stream := { maxPayload } } =
      FrameStream.flow ⟨[], 0, maxPayload⟩ chunks := rfl
  constructor
  · intro h
    refine hiff.mp ?_
    rw [← hcoming]
    exact FrameChannel.receives_eq_iff.mp h.frames
  · intro h
    have hleads := hiff.mpr h
    rw [← hcoming] at hleads
    refine ⟨FrameChannel.receives_eq_iff.mpr hleads, fun hnone => FrameChannel.receives_last ?_⟩
    -- what is delivered beyond the messages would be at the front of the rest
    obtain ⟨hflow, rest, hrest⟩ := @FrameStream.flow_sent maxPayload chunks []
    rw [← hcoming] at hflow hrest
    obtain ⟨more, hmore⟩ := hleads
    rw [← hmore] at hflow hrest ⊢
    cases more with
    | nil => exact List.append_nil fs
    | cons f more =>
      have hf := hflow f (List.mem_append_right fs List.mem_cons_self)
      rw [hview, sent, sent, List.flatMap_append, List.append_assoc, List.flatMap_cons,
        List.append_assoc] at hrest
      exact absurd ⟨_, (List.append_cancel_left hrest).symm⟩ (hnone f hf)

namespace Sample

/-- A message with a short payload. -/
def message : FrameHeader × Bytes := ({ type := 1, request := 7 }, [1, 2, 3])

/-- A message that is followed by bytes which are no frame. -/
def broken : Bytes := encodeFrame message.1 message.2 ++ List.replicate 28 0

end Sample

/-- If the frame and what breaks the framing come in two chunks, the frame is delivered. -/
theorem delivers_apart : FrameChannel.Delivers { socket := [Sample.broken.take 31,
    Sample.broken.drop 31] } [.of Sample.message.1 Sample.message.2] (List.replicate 28 0) := by
  refine (@delivers_iff defaultMaxFramePayload [Sample.message] (List.replicate 28 0)
    [Sample.broken.take 31, Sample.broken.drop 31] ?_ ?_ ?_).mpr ?_
  · rw [List.forall_mem_singleton]
    exact ⟨rfl, rfl, by decide⟩
  · decide +kernel
  · decide +kernel
  · refine ⟨fun _ => ⟨by decide +kernel, fun _ => ?_⟩, timely_of_le (by decide)⟩
    exact ⟨[], [], nofun, by decide +kernel, .inl (by decide)⟩

/-- If they come in one chunk, the frame is lost. -/
theorem not_delivers_broken : ¬ FrameChannel.Delivers { socket := [Sample.broken] }
    [.of Sample.message.1 Sample.message.2] (List.replicate 28 0) := by
  intro h
  have hlost : (FrameChannel.receive { socket := [Sample.broken] }).2.isOk = false := by
    decide +kernel
  have hfirst := (List.cons.inj h.frames).1
  rw [hfirst] at hlost
  cases hlost

end AcceleratorVirtualization
