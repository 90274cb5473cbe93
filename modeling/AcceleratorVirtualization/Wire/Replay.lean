import AcceleratorVirtualization.Lib.Refusal
import AcceleratorVirtualization.Wire.Journal

/-!
# Replaying a journal

The records of a journal are taken one after the other: a record that is complete is applied
whatever follows it, and a journal that was replayed to its end can be continued. How much fuel
there is does not matter as long as there is enough for the bytes that are left.
-/

namespace AcceleratorVirtualization

open Enumeration (value ofValue)
open Refusal

/-- Dropping a word in front. -/
theorem drop_putU32 (v : UInt32) (rest : Bytes) (n : ℕ) :
    (putU32 v ++ rest).drop (4 + n) = rest.drop n := by
  rw [← List.drop_drop, List.drop_left' (length_putU32 v)]

/-- A payload behind its length and its checksum. -/
def frameRecord (payload : Bytes) : Bytes :=
  putU32 (.ofNat payload.length) ++ (putU32 (Crc32c.compute payload) ++ payload)

theorem frameJournalRecord_eq (change : EncodedChange) : frameJournalRecord change =
    frameRecord (.ofNat (value change.kind) :: (putU64 (.ofNat change.id) ++ change.body)) := rfl

/-- The length of a record in its frame. -/
theorem length_frameRecord (payload : Bytes) :
    (frameRecord payload).length = journalRecordHeaderSize + payload.length := by
  simp only [frameRecord, List.length_append, length_putU32, journalRecordHeaderSize]
  omega

/-- A record of a length the journal may hold, and what it makes of a state. -/
structure Recorded (state : VirtualizationState) (payload : Bytes) (state' : VirtualizationState) :
    Prop where
  least : journalRecordPrefixSize ≤ payload.length
  most : payload.length ≤ maxJournalRecord
  applied : ∃ kind, ofValue (payload.headD 0).toNat = some kind ∧
    (applyRecord state kind).run' (Decoder.of (payload.drop journalRecordPrefixSize)) = .ok state'

variable {state state' : VirtualizationState} {offset n : ℕ} {view : Bytes} {tornTail : TornTail}

/-- A record is taken where a framed one is in front that can be applied. -/
theorem nextRecord_eq_ok : nextRecord offset view state = .ok (.ok (state', n)) ↔
    ∃ payload rest, view = frameRecord payload ++ rest ∧ Recorded state payload state' ∧
      n = (frameRecord payload).length := by
  constructor
  · intro h
    rw [nextRecord] at h
    by_cases hshort : view.length < journalRecordHeaderSize
    · simp [hshort, pure_eq_ok] at h
    · simp only [hshort, if_false, guard_bind_eq_ok] at h
      obtain ⟨hbounds, h⟩ := h
      by_cases hcut : view.length - journalRecordHeaderSize < (getU32 view 0).toNat
      · simp [hcut, pure_eq_ok] at h
      · simp only [hcut, if_false, guard_bind_eq_ok, not_not] at h
        obtain ⟨hcrc, h⟩ := h
        have hlength : ((view.drop journalRecordHeaderSize).take (getU32 view 0).toNat).length =
            (getU32 view 0).toNat := by
          rw [List.length_take, List.length_drop]
          omega
        have hview : view = frameRecord ((view.drop journalRecordHeaderSize).take
            (getU32 view 0).toNat) ++ (view.drop journalRecordHeaderSize).drop
              (getU32 view 0).toNat := by
          rw [frameRecord, hlength, UInt32.ofNat_toNat, hcrc, List.append_assoc, List.append_assoc,
            List.take_append_drop]
          unfold journalRecordHeaderSize at hshort ⊢
          have h4 : view.drop 4 = putU32 (getU32 view 4) ++ view.drop 8 :=
            drop_eq_putU32 (by omega)
          have h0 : view.drop 0 = putU32 (getU32 view 0) ++ view.drop 4 :=
            drop_eq_putU32 (by omega)
          rw [← h4, ← h0, List.drop_zero]
        generalize (view.drop journalRecordHeaderSize).take (getU32 view 0).toNat = payload at *
        rw [← hlength] at h hbounds
        cases hkind : (ofValue (payload.headD 0).toNat : Option EntityKind) with
        | none => simp only [hkind, throw_ne_ok] at h
        | some kind =>
          simp only [hkind, bind_eq_ok, pure_eq_ok, Except.ok.injEq, Prod.mk.injEq] at h
          obtain ⟨s, happly, rfl, rfl⟩ := h
          exact ⟨payload, _, hview, ⟨by omega, by omega, kind, hkind, happly⟩,
            (length_frameRecord payload).symm⟩
  -- every check passes on a record that was framed
  · rintro ⟨payload, rest, rfl, ⟨hleast, hmost, kind, hkind, happly⟩, rfl⟩
    generalize hview : frameRecord payload ++ rest = view
    rw [frameRecord, List.append_assoc, List.append_assoc] at hview
    have h4 : view.drop 4 = putU32 (Crc32c.compute payload) ++ (payload ++ rest) := by
      rw [← hview, drop_putU32 _ _ 0, List.drop_zero]
    have h8 : view.drop journalRecordHeaderSize = payload ++ rest := by
      rw [← hview, journalRecordHeaderSize, drop_putU32 _ _ 4, drop_putU32 _ _ 0, List.drop_zero]
    have hlong : view.length = journalRecordHeaderSize + (payload.length + rest.length) := by
      rw [← hview]
      simp only [List.length_append, length_putU32, journalRecordHeaderSize]
      omega
    have hlength : (getU32 view 0).toNat = payload.length := by
      rw [getU32_of_drop (List.drop_zero.trans hview.symm), UInt32.toNat_ofNat']
      unfold maxJournalRecord at hmost
      omega
    have hshort : ¬ view.length < journalRecordHeaderSize := by omega
    have hbounds : ¬ ((getU32 view 0).toNat < journalRecordPrefixSize ∨
        (getU32 view 0).toNat > maxJournalRecord) := by omega
    have hcut : ¬ view.length - journalRecordHeaderSize < (getU32 view 0).toNat := by omega
    have hpayload : (view.drop journalRecordHeaderSize).take (getU32 view 0).toNat = payload := by
      rw [h8, hlength, List.take_left]
    rw [nextRecord]
    simp only [if_neg hshort, if_neg hbounds, if_neg hcut, hpayload,
      if_neg (not_not.mpr (getU32_of_drop h4).symm), hkind]
    rw [happly, hlength, length_frameRecord]
    rfl

/-- What follows a record does not matter. -/
theorem nextRecord_append (h : nextRecord offset view state = .ok (.ok (state', n)))
    (more : Bytes) : nextRecord offset (view ++ more) state = .ok (.ok (state', n)) := by
  obtain ⟨payload, rest, rfl, hrecorded, rfl⟩ := nextRecord_eq_ok.mp h
  exact nextRecord_eq_ok.mpr ⟨payload, rest ++ more, List.append_assoc .., hrecorded, rfl⟩

/-- A record that is taken has a header and is inside the view. -/
theorem nextRecord_size (h : nextRecord offset view state = .ok (.ok (state', n))) :
    journalRecordHeaderSize ≤ n ∧ n ≤ view.length := by
  obtain ⟨payload, rest, rfl, -, rfl⟩ := nextRecord_eq_ok.mp h
  rw [List.length_append, length_frameRecord]
  omega

/-- There is enough fuel as soon as there is as much as there are bytes. -/
theorem replayRecords_fuel {fuel fuel' : ℕ} (hfuel : view.length ≤ fuel)
    (hfuel' : view.length ≤ fuel') : replayRecords tornTail fuel offset view state =
      replayRecords tornTail fuel' offset view state := by
  induction fuel generalizing fuel' offset view state with
  | zero =>
    have hnil : view = [] := List.length_eq_zero_iff.mp (by omega)
    subst hnil
    cases fuel' with
    | zero => rfl
    | succ fuel' => rfl
  | succ fuel ih =>
    cases fuel' with
    | zero =>
      have hnil : view = [] := List.length_eq_zero_iff.mp (by omega)
      subst hnil
      rfl
    | succ fuel' =>
      rw [replayRecords, replayRecords]
      by_cases hempty : view.isEmpty = true
      · rw [if_pos hempty, if_pos hempty]
      · rw [if_neg hempty, if_neg hempty]
        cases hnext : nextRecord offset view state with
        | error status => rfl
        | ok r =>
          cases r with
          | error detail => rfl
          | ok taken =>
            obtain ⟨s, size⟩ := taken
            obtain ⟨hleast, hmost⟩ := nextRecord_size hnext
            unfold journalRecordHeaderSize at hleast
            have hdrop : (view.drop size).length = view.length - size := List.length_drop
            exact ih (by omega) (by omega)

/-- The records of some bytes that begin at an offset. -/
def replay (tornTail : TornTail) (offset : ℕ) (view : Bytes) (state : VirtualizationState) :
    Except Status (VirtualizationState × Bool) :=
  replayRecords tornTail view.length offset view state

theorem replay_nil : replay tornTail offset [] state = .ok (state, false) := rfl

/-- A replay goes on behind a record that is taken. -/
theorem replay_of_next (h : nextRecord offset view state = .ok (.ok (state', n))) :
    replay tornTail offset view state = replay tornTail (offset + n) (view.drop n) state' := by
  obtain ⟨hleast, hmost⟩ := nextRecord_size h
  unfold journalRecordHeaderSize at hleast
  have hne : ¬ view.isEmpty = true := by
    rw [List.isEmpty_iff]
    rintro rfl
    rw [List.length_nil] at hmost
    omega
  have hdrop : (view.drop n).length = view.length - n := List.length_drop
  obtain ⟨fuel, hfuel⟩ : ∃ fuel, view.length = fuel + 1 := ⟨view.length - 1, by omega⟩
  rw [replay, hfuel, replayRecords, if_neg hne, h]
  exact replayRecords_fuel (by omega) le_rfl

/-- A replay ends at a record that is refused. -/
theorem replay_of_error {status : Status} (hne : view ≠ [])
    (h : nextRecord offset view state = .error status) :
    replay tornTail offset view state = .error status := by
  obtain ⟨fuel, hfuel⟩ : ∃ fuel, view.length = fuel + 1 :=
    ⟨view.length - 1, by have := List.length_pos_of_ne_nil hne; omega⟩
  rw [replay, hfuel, replayRecords, if_neg (by simpa using hne), h]

/-- A journal that was replayed to its end is continued with what is appended to it. -/
theorem replay_append (h : replay tornTail offset view state = .ok (state', false))
    (more : Bytes) : replay tornTail offset (view ++ more) state =
      replay tornTail (offset + view.length) more state' := by
  induction hlength : view.length using Nat.strong_induction_on generalizing offset view state with
  | _ length ih =>
    by_cases hnil : view = []
    · subst hnil
      rw [replay_nil] at h
      cases h
      subst hlength
      rfl
    · obtain ⟨fuel, hfuel⟩ : ∃ fuel, view.length = fuel + 1 :=
        ⟨view.length - 1, by have := List.length_pos_of_ne_nil hnil; omega⟩
      cases hnext : nextRecord offset view state with
      | error status =>
        rw [replay_of_error hnil hnext] at h
        exact nomatch h
      | ok r =>
        cases r with
        | error detail =>
          rw [replay, hfuel, replayRecords, if_neg (by simpa using hnil), hnext] at h
          cases tornTail with
          | reject => exact nomatch h
          | discard => exact nomatch h
        | ok taken =>
          obtain ⟨s, n⟩ := taken
          obtain ⟨hleast, hmost⟩ := nextRecord_size hnext
          unfold journalRecordHeaderSize at hleast
          have hdrop : (view.drop n).length = view.length - n := List.length_drop
          rw [replay_of_next hnext] at h
          rw [replay_of_next (nextRecord_append hnext more), List.drop_append_of_le_length hmost,
            ih _ (by omega) h rfl, hdrop]
          congr 1
          omega

/-- Behind its header a journal is replayed record by record. -/
theorem replayJournal_eq : replayJournal tornTail state (journalHeaderBytes ++ view) =
    replay tornTail journalHeaderSize view state := by
  generalize hbytes : journalHeaderBytes ++ view = bytes
  have h0 : bytes.drop 0 = putU32 journalMagic ++ (putU32 (.ofNat schemaVersion) ++ view) := by
    rw [← hbytes, journalHeaderBytes, List.append_assoc, List.drop_zero]
  have h4 : bytes.drop 4 = putU32 (.ofNat schemaVersion) ++ view := by
    rw [← List.drop_zero (l := bytes), h0, drop_putU32 _ _ 0, List.drop_zero]
  have h8 : bytes.drop journalHeaderSize = view := by
    rw [← List.drop_zero (l := bytes), h0, journalHeaderSize, drop_putU32 _ _ 4,
      drop_putU32 _ _ 0, List.drop_zero]
  have hlength : bytes.length = journalHeaderSize + view.length := by
    rw [← hbytes]
    simp only [journalHeaderBytes, List.length_append, length_putU32, journalHeaderSize]
  rw [replayJournal]
  simp only [if_neg (show ¬ bytes.length < journalHeaderSize by omega),
    if_neg (not_not.mpr (getU32_of_drop h0)), if_neg (not_not.mpr (getU32_of_drop h4)), h8]
  exact replayRecords_fuel (by omega) le_rfl

end AcceleratorVirtualization
