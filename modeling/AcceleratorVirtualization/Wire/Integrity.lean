import AcceleratorVirtualization.Lib.Feedback
import AcceleratorVirtualization.Wire.Delivery
import AcceleratorVirtualization.Wire.Replay

/-!
# What the checksum detects

The checksum is a linear feedback register of 32 bits, so payloads that differ within four
consecutive bytes have different checksums. What is read behind a header that declares the checksum
of another such payload is refused, in a frame, on a stream, in a snapshot and in the journal.
-/

namespace AcceleratorVirtualization

open Refusal
open FrameStream (sent)

/-! ### The register -/

namespace Crc32c

/-- The reversed polynomial. -/
def polynomial : BitVec 32 := 0x82F63B78

/-- One shift of the checksum is one step of the register. -/
theorem toBitVec_shift (crc : UInt32) :
    (shift crc).toBitVec = FeedbackRegister.step polynomial crc.toBitVec := by
  have hlow : (crc &&& 1 = 1) ↔ crc.toBitVec.getLsbD 0 = true := by
    rw [← UInt32.toBitVec_inj, UInt32.toBitVec_and]
    have hone : crc.toBitVec &&& UInt32.toBitVec 1 =
        BitVec.setWidth 32 (BitVec.ofBool (crc.toBitVec.getLsbD 0)) :=
      BitVec.and_one_eq_setWidth_ofBool_getLsbD
    rw [hone]
    cases crc.toBitVec.getLsbD 0 with
    | false => decide
    | true => decide
  rw [shift, FeedbackRegister.step]
  simp only [hlow]
  split
  · rfl
  · rfl

/-- The checksum is fed byte by byte. -/
theorem toBitVec_update (crc : UInt32) (data : Bytes) : (update crc data).toBitVec =
    FeedbackRegister.feedAll polynomial crc.toBitVec (data.map UInt8.toBitVec) := by
  have hiterate : ∀ (n : ℕ) (x : UInt32), (shift^[n] x).toBitVec =
      (FeedbackRegister.step polynomial)^[n] x.toBitVec := by
    intro n
    induction n with
    | zero => exact fun x => rfl
    | succ n ih =>
      intro x
      rw [Function.iterate_succ_apply, ih, toBitVec_shift, Function.iterate_succ_apply]
  induction data generalizing crc with
  | nil => rfl
  | cons byte data ih =>
    have hfeed : (shift^[8] (crc ^^^ byte.toUInt32)).toBitVec =
        FeedbackRegister.feed polynomial crc.toBitVec byte.toBitVec := by
      rw [hiterate]
      rfl
    calc (update crc (byte :: data)).toBitVec
        = (update (shift^[8] (crc ^^^ byte.toUInt32)) data).toBitVec := rfl
      _ = FeedbackRegister.feedAll polynomial crc.toBitVec
            ((byte :: data).map UInt8.toBitVec) := by rw [ih, hfeed]; rfl

end Crc32c

/-- Two payloads of one length differ, and only in one window of four consecutive bytes. -/
def Burst (payload payload' : Bytes) : Prop :=
  ∃ before window window' after, payload = before ++ window ++ after ∧
    payload' = before ++ window' ++ after ∧ window.length = window'.length ∧ window.length ≤ 4 ∧
    window ≠ window'

/-- A burst does not change the length. -/
theorem Burst.length_eq {payload payload' : Bytes} (h : Burst payload payload') :
    payload'.length = payload.length := by
  obtain ⟨before, window, window', after, rfl, rfl, hlength, -, -⟩ := h
  simp only [List.length_append, hlength]

/-- A burst changes the checksum. -/
theorem Burst.compute_ne {payload payload' : Bytes} (h : Burst payload payload') :
    Crc32c.compute payload' ≠ Crc32c.compute payload := by
  obtain ⟨before, window, window', after, rfl, rfl, hlength, hfour, hne⟩ := h
  intro heq
  rw [Crc32c.compute, Crc32c.compute, UInt32.xor_left_inj, ← UInt32.toBitVec_inj,
    Crc32c.toBitVec_update, Crc32c.toBitVec_update] at heq
  simp only [List.map_append] at heq
  refine FeedbackRegister.feedAll_burst (by decide) _ _ _ ?_ ?_ ?_ heq
  · simp only [List.length_map, hlength]
  · simp only [List.length_map, ← hlength]
    omega
  · intro hmap
    exact hne (List.map_injective_iff.mpr (fun a b => UInt8.toBitVec_inj.mp) hmap).symm

/-- A length and a checksum that are those of a payload. -/
structure Declares (length crc : UInt32) (payload : Bytes) : Prop where
  length : length.toNat = payload.length
  crc : crc = Crc32c.compute payload

section Detected

variable {payload payload' : Bytes} (h : Burst payload payload')
include h

/-! ### Frames -/

/-- A frame with a burst in its payload is refused. -/
theorem decodeFrame_burst {header : FrameHeader} (hmagic : header.magic = frameMagic)
    (hheader : Declares header.payloadLength header.payloadCrc payload) :
    decodeFrame (header.bytes ++ payload') =
      .error (.of .integrityFailure "frame payload failed its integrity check") := by
  have hread := FrameHeader.read_append header payload'
  have hlength : (header.bytes ++ payload').length = frameHeaderSize + payload.length := by
    rw [List.length_append, FrameHeader.length_bytes, h.length_eq]
  have hdrop : (header.bytes ++ payload').drop frameHeaderSize = payload' :=
    List.drop_left' header.length_bytes
  generalize header.bytes ++ payload' = view at *
  have hshort : ¬ view.length < frameHeaderSize := by omega
  have hmagic' : ¬ getU32 view 0 ≠ frameMagic :=
    not_not.mpr ((congrArg FrameHeader.magic hread).trans hmagic)
  have hlength' : ¬ view.length - frameHeaderSize ≠ (getU32 view 20).toNat := by
    rw [show getU32 view 20 = header.payloadLength from congrArg FrameHeader.payloadLength hread,
      hheader.length]
    omega
  have hcrc : Crc32c.compute (view.drop frameHeaderSize) ≠ getU32 view 24 := by
    rw [hdrop, show getU32 view 24 = header.payloadCrc from congrArg FrameHeader.payloadCrc hread,
      hheader.crc]
    exact h.compute_ne
  rw [decodeFrame]
  simp only [if_neg hshort, if_neg hmagic', if_neg hlength', if_pos hcrc]
  rfl

/-! ### Streams -/

/-- So is a frame in a stream. -/
theorem next_burst {maxPayload : UInt32} {header : FrameHeader}
    (hframe : Frame.Sealed maxPayload ⟨header, payload⟩) (rest : Bytes) :
    FrameStream.next maxPayload (header.bytes ++ (payload' ++ rest)) =
      .error (.of .integrityFailure "frame payload failed its integrity check") := by
  have hread := FrameHeader.read_append header (payload' ++ rest)
  have hlong : (header.bytes ++ (payload' ++ rest)).length =
      frameHeaderSize + (payload.length + rest.length) := by
    rw [List.length_append, FrameHeader.length_bytes, List.length_append, h.length_eq]
  have hdrop : (header.bytes ++ (payload' ++ rest)).drop frameHeaderSize = payload' ++ rest :=
    List.drop_left' header.length_bytes
  generalize header.bytes ++ (payload' ++ rest) = view at *
  have hlength : (getU32 view 20).toNat = payload'.length := by
    rw [show getU32 view 20 = header.payloadLength from congrArg FrameHeader.payloadLength hread,
      hframe.length, h.length_eq]
  have hle : payload'.length ≤ maxPayload.toNat := h.length_eq.trans_le hframe.room
  have hshort : ¬ view.length < frameHeaderSize := by omega
  have hmagic : ¬ getU32 view 0 ≠ frameMagic :=
    not_not.mpr ((congrArg FrameHeader.magic hread).trans hframe.magic)
  have hversion : ¬ getU16 view 4 ≠ protocolVersion :=
    not_not.mpr ((congrArg FrameHeader.version hread).trans hframe.version)
  have hroom : ¬ getU32 view 20 > maxPayload := by
    rw [gt_iff_lt, UInt32.lt_iff_toNat_lt]
    omega
  have hcut : ¬ view.length < frameHeaderSize + (getU32 view 20).toNat := by
    have := h.length_eq
    omega
  have hcrc : Crc32c.compute ((view.drop frameHeaderSize).take (getU32 view 20).toNat) ≠
      getU32 view 24 := by
    rw [hdrop, hlength, List.take_left, show getU32 view 24 = header.payloadCrc from
      congrArg FrameHeader.payloadCrc hread, hframe.crc]
    exact h.compute_ne
  rw [FrameStream.next]
  simp only [if_neg hshort, if_neg hmagic, if_neg hversion, if_neg hroom, if_neg hcut,
    if_pos hcrc]
  rfl

/-- A chunk that completes the frame is refused; the frames before it are handed out. -/
theorem feed_burst {s : FrameStream} {chunk rest : Bytes} {fs : List Frame} {header : FrameHeader}
    (hroom : s.buffered + chunk.length ≤ s.maxPayload.toNat + frameHeaderSize)
    (hfs : ∀ f ∈ fs, f.Sealed s.maxPayload)
    (hframe : Frame.Sealed s.maxPayload ⟨header, payload⟩)
    (hview : (s.buffer ++ chunk).drop s.consumed =
      sent fs ++ (header.bytes ++ (payload' ++ rest))) :
    ∃ s', s.feed chunk = (s', fs,
      .error (.of .integrityFailure "frame payload failed its integrity check")) := by
  have hlength : fs.length ≤ ({ s with buffer := s.buffer ++ chunk } : FrameStream).buffered := by
    have hle := FrameStream.length_le_sent hfs
    have hsize := congrArg List.length hview
    rw [List.length_drop, @List.length_append _ (sent fs)] at hsize
    change fs.length ≤ (s.buffer ++ chunk).length - s.consumed
    omega
  obtain ⟨fuel, hfuel⟩ := Nat.exists_eq_add_of_le hlength
  obtain ⟨consumed, hdrain, hrest⟩ := @FrameStream.drain_sent fs _
    { s with buffer := s.buffer ++ chunk } hfs hview [] (fuel + 1)
  refine ⟨{ s with buffer := s.buffer ++ chunk, consumed }, ?_⟩
  rw [FrameStream.feed, if_neg (by omega)]
  simp only
  rw [hfuel, Nat.add_assoc, hdrain, FrameStream.drain]
  simp only [hrest, next_burst h hframe, List.nil_append]

/-! ### Snapshots -/

/-- So is a snapshot file. -/
theorem decodeSnapshotFile_burst {length crc : UInt32} (hheader : Declares length crc payload) :
    decodeSnapshotFile (putU32 snapshotMagic ++ (putU32 (.ofNat schemaVersion) ++
      (putU32 length ++ (putU32 crc ++ payload')))) =
        .error (.of .integrityFailure "snapshot payload failed its integrity check") := by
  generalize hview : putU32 snapshotMagic ++ (putU32 (.ofNat schemaVersion) ++
    (putU32 length ++ (putU32 crc ++ payload'))) = view
  have h4 : view.drop 4 = putU32 (.ofNat schemaVersion) ++ (putU32 length ++
      (putU32 crc ++ payload')) := by rw [← hview, drop_putU32 _ _ 0, List.drop_zero]
  have h8 : view.drop 8 = putU32 length ++ (putU32 crc ++ payload') := by
    rw [← hview, drop_putU32 _ _ 4, drop_putU32 _ _ 0, List.drop_zero]
  have h12 : view.drop 12 = putU32 crc ++ payload' := by
    rw [← hview, drop_putU32 _ _ 8, drop_putU32 _ _ 4, drop_putU32 _ _ 0, List.drop_zero]
  have h16 : view.drop snapshotHeaderSize = payload' := by
    rw [← hview, snapshotHeaderSize, drop_putU32 _ _ 12, drop_putU32 _ _ 8, drop_putU32 _ _ 4,
      drop_putU32 _ _ 0, List.drop_zero]
  have hlong : view.length = snapshotHeaderSize + payload.length := by
    rw [← hview, ← h.length_eq]
    simp only [List.length_append, length_putU32, snapshotHeaderSize]
    omega
  have hmagic : getU32 view 0 = snapshotMagic := getU32_of_drop (List.drop_zero.trans hview.symm)
  have hshort : ¬ view.length < snapshotHeaderSize := by omega
  have hlength : ¬ view.length - snapshotHeaderSize ≠ (getU32 view 8).toNat := by
    rw [getU32_of_drop h8, hheader.length]
    omega
  have hcrc : Crc32c.compute (view.drop snapshotHeaderSize) ≠ getU32 view 12 := by
    rw [h16, getU32_of_drop h12, hheader.crc]
    exact h.compute_ne
  rw [decodeSnapshotFile]
  simp only [if_neg hshort, if_neg (not_not.mpr hmagic),
    if_neg (not_not.mpr (getU32_of_drop h4)), if_neg hlength, if_pos hcrc]
  rfl

/-! ### The journal -/

/-- So is the next record of a journal. -/
theorem nextRecord_burst {length crc : UInt32} (hheader : Declares length crc payload)
    (hsized : journalRecordPrefixSize ≤ payload.length) (hmax : payload.length ≤ maxJournalRecord)
    (offset : ℕ) (rest : Bytes) (state : VirtualizationState) :
    nextRecord offset (putU32 length ++ (putU32 crc ++ (payload' ++ rest))) state =
      .error ⟨.integrityFailure, txt "journal record at offset " ++ toDecimal offset ++
        txt " failed its integrity check"⟩ := by
  generalize hview : putU32 length ++ (putU32 crc ++ (payload' ++ rest)) = view
  have h4 : view.drop 4 = putU32 crc ++ (payload' ++ rest) := by
    rw [← hview, drop_putU32 _ _ 0, List.drop_zero]
  have h8 : view.drop journalRecordHeaderSize = payload' ++ rest := by
    rw [← hview, journalRecordHeaderSize, drop_putU32 _ _ 4, drop_putU32 _ _ 0, List.drop_zero]
  have hlong : view.length = journalRecordHeaderSize + (payload.length + rest.length) := by
    rw [← hview, ← h.length_eq]
    simp only [List.length_append, length_putU32, journalRecordHeaderSize]
    omega
  have hlength : (getU32 view 0).toNat = payload.length := by
    rw [getU32_of_drop (List.drop_zero.trans hview.symm), hheader.length]
  have hshort : ¬ view.length < journalRecordHeaderSize := by omega
  have hbounds : ¬ ((getU32 view 0).toNat < journalRecordPrefixSize ∨
      (getU32 view 0).toNat > maxJournalRecord) := by omega
  have hcut : ¬ view.length - journalRecordHeaderSize < (getU32 view 0).toNat := by omega
  have hcrc : Crc32c.compute ((view.drop journalRecordHeaderSize).take (getU32 view 0).toNat) ≠
      getU32 view 4 := by
    rw [h8, hlength, ← h.length_eq, List.take_left, getU32_of_drop h4, hheader.crc]
    exact h.compute_ne
  rw [nextRecord]
  simp only [if_neg hshort, if_neg hbounds, if_neg hcut, if_pos hcrc]
  rfl

/-- So is a record behind others. -/
theorem replayJournal_burst {tornTail : TornTail} {state state' : VirtualizationState}
    {records : Bytes}
    (hrecords : replayJournal tornTail state (journalHeaderBytes ++ records) = .ok (state', false))
    {length crc : UInt32} (hheader : Declares length crc payload)
    (hsized : journalRecordPrefixSize ≤ payload.length) (hmax : payload.length ≤ maxJournalRecord)
    (rest : Bytes) :
    replayJournal tornTail state (journalHeaderBytes ++ (records ++
      (putU32 length ++ (putU32 crc ++ (payload' ++ rest))))) =
      .error ⟨.integrityFailure, txt "journal record at offset " ++
        toDecimal (journalHeaderSize + records.length) ++ txt " failed its integrity check"⟩ := by
  rw [replayJournal_eq] at hrecords
  rw [replayJournal_eq, replay_append hrecords]
  refine replay_of_error (fun hnil => ?_) (nextRecord_burst h hheader hsized hmax _ rest state')
  have hlength := congrArg List.length hnil
  rw [List.length_append, length_putU32, List.length_nil] at hlength
  omega

end Detected

/-- Payloads that differ in a burst of four bytes have different checksums, and what is read behind
the header of the one is refused if it is the other: in a frame, on a stream whatever was fed
before, in a snapshot, and in the journal behind records that are intact. -/
theorem burst_detected {payload payload' : Bytes} (h : Burst payload payload') :
    Crc32c.compute payload' ≠ Crc32c.compute payload ∧
    (∀ header : FrameHeader, header.magic = frameMagic →
      Declares header.payloadLength header.payloadCrc payload →
      decodeFrame (header.bytes ++ payload') =
        .error (.of .integrityFailure "frame payload failed its integrity check")) ∧
    (∀ (s : FrameStream) (chunk rest : Bytes) (fs : List Frame) (header : FrameHeader),
      s.buffered + chunk.length ≤ s.maxPayload.toNat + frameHeaderSize →
      (∀ f ∈ fs, f.Sealed s.maxPayload) → Frame.Sealed s.maxPayload ⟨header, payload⟩ →
      (s.buffer ++ chunk).drop s.consumed = sent fs ++ (header.bytes ++ (payload' ++ rest)) →
      ∃ s', s.feed chunk = (s', fs,
        .error (.of .integrityFailure "frame payload failed its integrity check"))) ∧
    (∀ length crc : UInt32, Declares length crc payload →
      decodeSnapshotFile (putU32 snapshotMagic ++ (putU32 (.ofNat schemaVersion) ++
        (putU32 length ++ (putU32 crc ++ payload')))) =
          .error (.of .integrityFailure "snapshot payload failed its integrity check")) ∧
    ∀ (tornTail : TornTail) (state state' : VirtualizationState) (records rest : Bytes)
      (length crc : UInt32),
      replayJournal tornTail state (journalHeaderBytes ++ records) = .ok (state', false) →
      Declares length crc payload → journalRecordPrefixSize ≤ payload.length →
      payload.length ≤ maxJournalRecord →
      replayJournal tornTail state (journalHeaderBytes ++ (records ++
        (putU32 length ++ (putU32 crc ++ (payload' ++ rest))))) =
        .error ⟨.integrityFailure, txt "journal record at offset " ++
          toDecimal (journalHeaderSize + records.length) ++ txt " failed its integrity check"⟩ := by
  refine ⟨h.compute_ne, fun header hmagic hheader => decodeFrame_burst h hmagic hheader,
    fun s chunk rest fs header hroom hfs hframe hview => feed_burst h hroom hfs hframe hview,
    fun length crc hheader => decodeSnapshotFile_burst h hheader, ?_⟩
  intro tornTail state state' records rest length crc hrecords hheader hsized hmax
  exact replayJournal_burst h hrecords hheader hsized hmax rest

namespace Sample

/-- A payload that is long enough for a journal record. -/
def intact : Bytes := [9, 1, 2, 3, 4, 5, 6, 7, 8, 9, 10]

/-- The payload with its third and its sixth byte changed. -/
def corrupted : Bytes := [9, 1, 0, 3, 4, 0, 6, 7, 8, 9, 10]

/-- The header that belongs to `intact`. -/
def intactHeader : FrameHeader :=
  { payloadLength := 11, payloadCrc := Crc32c.compute intact }

end Sample

/-- The four readers at one corrupted payload. -/
theorem burst_detected_corrupted :
    decodeFrame (Sample.intactHeader.bytes ++ Sample.corrupted) =
      .error (.of .integrityFailure "frame payload failed its integrity check") ∧
    (∃ s', FrameStream.feed {} (Sample.intactHeader.bytes ++ Sample.corrupted) = (s', [],
      .error (.of .integrityFailure "frame payload failed its integrity check"))) ∧
    decodeSnapshotFile (putU32 snapshotMagic ++ (putU32 (.ofNat schemaVersion) ++
      (putU32 11 ++ (putU32 (Crc32c.compute Sample.intact) ++ Sample.corrupted)))) =
        .error (.of .integrityFailure "snapshot payload failed its integrity check") ∧
    replayJournal .reject {} (journalHeaderBytes ++ ([] ++ (putU32 11 ++
      (putU32 (Crc32c.compute Sample.intact) ++ (Sample.corrupted ++ []))))) =
        .error ⟨.integrityFailure, txt "journal record at offset " ++
          toDecimal (journalHeaderSize + 0) ++ txt " failed its integrity check"⟩ := by
  have hburst : Burst Sample.intact Sample.corrupted :=
    ⟨[9, 1], [2, 3, 4, 5], [0, 3, 4, 0], [6, 7, 8, 9, 10], rfl, rfl, rfl, le_rfl, by decide⟩
  have hheader : Declares 11 (Crc32c.compute Sample.intact) Sample.intact := ⟨rfl, rfl⟩
  have hframe : Frame.Sealed defaultMaxFramePayload ⟨Sample.intactHeader, Sample.intact⟩ :=
    ⟨rfl, rfl, rfl, rfl, by decide⟩
  obtain ⟨-, hdecode, hfeed, hsnapshot, hjournal⟩ := burst_detected hburst
  refine ⟨hdecode Sample.intactHeader rfl hheader, ?_, hsnapshot 11 _ hheader, ?_⟩
  · exact hfeed {} _ [] [] Sample.intactHeader
      (by decide) nofun hframe (by rw [List.append_nil]; rfl)
  · exact hjournal .reject {} {} [] [] 11 _ (by rw [replayJournal_eq]; rfl) hheader (by decide)
      (by decide)

end AcceleratorVirtualization
