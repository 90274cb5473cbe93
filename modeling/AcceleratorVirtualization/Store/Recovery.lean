import AcceleratorVirtualization.Store.Edits
import AcceleratorVirtualization.Wire.Replay

/-!
# Recovery from the files

The journal of a log is its header and the framed records of the log. Replayed to its end it makes
of a state what the log makes of it; cut short anywhere behind its header, what the records before
the cut make of it, and the record in which the cut falls is incomplete. A snapshot that fits is
read back as the state.
-/

namespace AcceleratorVirtualization

open Enumeration (value ofValue)
open VirtualizationState Journaling

variable {tornTail : TornTail} {e : Edit} {log : List Edit} {s : VirtualizationState} {offset : ℕ}

/-! ### Complete records -/

namespace Edit

/-- What is framed of a record. -/
def payload (e : Edit) : Bytes :=
  .ofNat (value e.encoded.kind) :: (putU64 (.ofNat e.encoded.id) ++ e.encoded.body)

/-- A record in the journal. -/
def framed (e : Edit) : Bytes := frameJournalRecord e.encoded

/-- The length of a journal record behind its frame. -/
theorem length_payload (e : Edit) :
    e.payload.length = journalRecordPrefixSize + e.encoded.body.length := by
  simp only [payload, List.length_cons, List.length_append, length_putU64, journalRecordPrefixSize]
  omega

/-- The code of a kind fits one byte. -/
theorem value_lt_of_kind (kind : EntityKind) : value kind < 256 := by
  have hlt : value kind < EntityKind.all.length := by
    refine List.idxOf_lt_length_iff.mpr ?_
    rcases kind with _ | k | _ | _ | _
    · decide
    · cases k <;> decide
    all_goals decide
  exact hlt.trans (by decide)

/-- A record that fits is applied. -/
theorem Storable.recorded (h : e.Storable) (s : VirtualizationState) :
    Recorded s e.payload (s.edited e) where
  least := by rw [length_payload]; omega
  most := (length_payload e).trans_le h.size
  applied := by
    refine ⟨e.encoded.kind, ?_, ?_⟩
    · have hbyte : (UInt8.ofNat (value e.encoded.kind)).toNat = value e.encoded.kind := by
        rw [UInt8.toNat_ofNat']
        exact Nat.mod_eq_of_lt (value_lt_of_kind _)
      rw [payload, List.headD_cons, hbyte, Enumeration.ofValue_value]
    · have hdrop : e.payload.drop journalRecordPrefixSize = e.encoded.body := by
        rw [payload, journalRecordPrefixSize, List.drop_succ_cons,
          List.drop_left' (length_putU64 _)]
      rw [hdrop]
      exact applyRecord_encoded h.fits s

/-- The replay takes a whole record off the front. -/
theorem Storable.nextRecord_append (h : e.Storable) (offset : ℕ) (more : Bytes) :
    nextRecord offset (e.framed ++ more) s = .ok (.ok (s.edited e, e.framed.length)) :=
  nextRecord_eq_ok.mpr ⟨e.payload, more, rfl, h.recorded s, rfl⟩

end Edit

/-- The records of a log in the journal. -/
def frames (log : List Edit) : Bytes := log.flatMap Edit.framed

/-- A log that is not empty is written as something. -/
theorem frames_ne_nil (h : log ≠ []) : frames log ≠ [] := by
  obtain ⟨e, rest, rfl⟩ := List.exists_cons_of_ne_nil h
  refine List.ne_nil_of_length_pos ?_
  rw [frames, List.flatMap_cons, List.length_append, Edit.framed, frameJournalRecord_eq,
    length_frameRecord, journalRecordHeaderSize]
  omega

/-- Logs are written one behind the other. -/
theorem frames_append (log more : List Edit) : frames (log ++ more) = frames log ++ frames more :=
  List.flatMap_append

/-- Complete records are applied one after the other. -/
theorem replay_frames (h : ∀ e ∈ log, e.Storable) (offset : ℕ) (more : Bytes) :
    replay tornTail offset (frames log ++ more) s =
      replay tornTail (offset + (frames log).length) more (log.foldl edited s) := by
  induction log generalizing offset s with
  | nil => rfl
  | cons e log ih =>
    have hnext := (h e List.mem_cons_self).nextRecord_append (s := s) offset (frames log ++ more)
    have happend : frames (e :: log) ++ more = e.framed ++ (frames log ++ more) := by
      rw [frames, List.flatMap_cons, List.append_assoc, frames]
    rw [happend, replay_of_next hnext, List.drop_left,
      ih fun e' he' => h e' (List.mem_cons_of_mem _ he'), List.foldl_cons]
    congr 1
    rw [frames, frames, List.flatMap_cons, List.length_append]
    omega

/-! ### Incomplete records -/

/-- The beginning of a record is incomplete, not invalid. -/
theorem nextRecord_prefix (h : e.Storable) {part : Bytes} (hpart : part <+: e.framed)
    (hlt : part.length < e.framed.length) (offset : ℕ) (s : VirtualizationState) :
    ∃ detail, nextRecord offset part s = .ok (.error detail) := by
  obtain ⟨rest, hrest⟩ := hpart
  rw [nextRecord]
  by_cases hshort : part.length < journalRecordHeaderSize
  · exact ⟨_, by simp only [hshort, if_true]; rfl⟩
  · have hframed : e.framed = frameRecord e.payload := rfl
    have hsize := h.size
    rw [← Edit.length_payload] at hsize
    have hleast : journalRecordPrefixSize ≤ e.payload.length := by
      rw [Edit.length_payload]
      omega
    have hlength : (getU32 part 0).toNat = e.payload.length := by
      have hhead : part.drop 0 = putU32 (getU32 part 0) ++ part.drop 4 :=
        drop_eq_putU32 (by unfold journalRecordHeaderSize at hshort; omega)
      have hwhole := hrest
      rw [← List.drop_zero (l := part), hhead, hframed, frameRecord, List.append_assoc] at hwhole
      have hword := (List.append_inj hwhole (by simp only [length_putU32])).1
      rw [putU32_injective hword, UInt32.toNat_ofNat']
      unfold maxJournalRecord at hsize
      omega
    have hcut : part.length - journalRecordHeaderSize < (getU32 part 0).toNat := by
      rw [hframed, length_frameRecord] at hlt
      omega
    have hbounds : ¬ ((getU32 part 0).toNat < journalRecordPrefixSize ∨
        (getU32 part 0).toNat > maxJournalRecord) := by omega
    exact ⟨_, by simp only [hshort, if_false, if_neg hbounds, hcut, if_true]; rfl⟩

/-- A replay that ends in an incomplete record. -/
theorem replay_prefix (tornTail : TornTail) (h : e.Storable) {part : Bytes}
    (hpart : part <+: e.framed) (hlt : part.length < e.framed.length) (hne : part ≠ [])
    (offset : ℕ) (s : VirtualizationState) :
    ∃ detail, replay tornTail offset part s = handleTorn tornTail s detail := by
  obtain ⟨detail, hnext⟩ := nextRecord_prefix h hpart hlt offset s
  obtain ⟨fuel, hfuel⟩ : ∃ fuel, part.length = fuel + 1 :=
    ⟨part.length - 1, by have := List.length_pos_of_ne_nil hne; omega⟩
  exact ⟨detail, by rw [replay, hfuel, replayRecords, if_neg (by simpa using hne), hnext]⟩

/-! ### Journals -/

/-- The journal of a log. -/
def journalOf (log : List Edit) : Bytes := journalHeaderBytes ++ frames log

/-- The header of a journal has its announced length. -/
theorem length_journalHeaderBytes : journalHeaderBytes.length = journalHeaderSize := by
  simp only [journalHeaderBytes, List.length_append, length_putU32, journalHeaderSize]

/-- A journal that is cut short behind its header gives the records that are complete before the
cut. If the cut falls in a record, the rest is reported when it is discarded, and otherwise it is
refused. -/
theorem replayJournal_take (h : ∀ e ∈ log, e.Storable) (s : VirtualizationState) (n : ℕ) :
    ∃ k ≤ log.length, (frames (log.take k)).length ≤ n ∧
      (∀ e, log[k]? = some e → n < (frames (log.take k)).length + e.framed.length) ∧
      ∃ torn : Bool, (torn = true ↔ k < log.length ∧ (frames (log.take k)).length < n) ∧
        replayJournal .discard s ((journalOf log).take (journalHeaderSize + n)) =
          .ok ((log.take k).foldl edited s, torn) ∧
        (torn = false → replayJournal .reject s ((journalOf log).take (journalHeaderSize + n)) =
          .ok ((log.take k).foldl edited s, false)) ∧
        (torn = true → ∃ status : Status, status.code = .truncatedState ∧
          replayJournal .reject s ((journalOf log).take (journalHeaderSize + n)) =
            .error status) := by
  obtain ⟨k, rest, hk, htake, hrest⟩ := take_flatMap Edit.framed log n
  have hbefore : ∀ e ∈ log.take k, e.Storable := fun e he => h e (List.mem_of_mem_take he)
  have hjournal : (journalOf log).take (journalHeaderSize + n) =
      journalHeaderBytes ++ (frames (log.take k) ++ rest) := by
    rw [journalOf, ← length_journalHeaderBytes, List.take_length_add_append, frames, htake, frames]
  rw [hjournal]
  simp only [replayJournal_eq, replay_frames hbefore]
  refine ⟨k, hk, ?_⟩
  obtain ⟨hlast, hnil, hle⟩ | ⟨e, he, hprefix, hlt, hsum⟩ := hrest
  · -- the cut is behind the last record
    subst hnil
    refine ⟨hle, fun e he => ?_, false, ?_, replay_nil, fun _ => replay_nil,
      fun h => absurd h (by decide)⟩
    · have hlt := (List.getElem?_eq_some_iff.mp he).1
      omega
    · exact iff_of_false (by decide) (by omega)
  · have hlt' : k < log.length := (List.getElem?_eq_some_iff.mp he).1
    have hsum' : (frames (log.take k)).length + rest.length = n := hsum
    have hnext : ∀ e', log[k]? = some e' →
        n < (frames (log.take k)).length + e'.framed.length := by
      intro e' he'
      obtain rfl := Option.some.inj (he.symm.trans he')
      omega
    have hstorable := h e (List.mem_of_getElem? he)
    by_cases hnil : rest = []
    · -- the cut is between two records
      subst hnil
      rw [List.length_nil] at hsum'
      refine ⟨by omega, hnext, false, ?_, replay_nil, fun _ => replay_nil,
        fun h => absurd h (by decide)⟩
      exact iff_of_false (by decide) (by omega)
    · have hpos := List.length_pos_of_ne_nil hnil
      obtain ⟨detail, hdiscard⟩ := replay_prefix .discard hstorable hprefix hlt hnil
        (journalHeaderSize + (frames (log.take k)).length) ((log.take k).foldl edited s)
      obtain ⟨detail', hreject⟩ := replay_prefix .reject hstorable hprefix hlt hnil
        (journalHeaderSize + (frames (log.take k)).length) ((log.take k).foldl edited s)
      refine ⟨by omega, hnext, true, ?_, hdiscard, fun h => absurd h (by decide),
        fun _ => ⟨_, rfl, hreject⟩⟩
      exact iff_of_true rfl ⟨hlt', by omega⟩

namespace Sample

/-- The outcomes of two requests. -/
def outcomes : List Edit := [.request { request := 1 }, .request { request := 2 }]

end Sample

/-- A cut in the second of two records. -/
theorem replayJournal_take_outcomes : ∃ status : Status, status.code = .truncatedState ∧
    replayJournal .discard {} ((journalOf Sample.outcomes).take (journalHeaderSize + 60)) =
      .ok (edited {} (.request { request := 1 }), true) ∧
    replayJournal .reject {} ((journalOf Sample.outcomes).take (journalHeaderSize + 60)) =
      .error status := by
  have hstorable : ∀ e ∈ Sample.outcomes, e.Storable := by
    rw [Sample.outcomes, List.forall_mem_cons, List.forall_mem_singleton]
    constructor
    · exact ⟨⟨⟨by decide, by decide⟩, by decide, by decide, by decide⟩, by decide +kernel⟩
    · exact ⟨⟨⟨by decide, by decide⟩, by decide, by decide, by decide⟩, by decide +kernel⟩
  obtain ⟨k, hk, hle, hnext, torn, htorn, hdiscard, -, hreject⟩ :=
    replayJournal_take hstorable {} 60
  have hk' : k ≤ 2 := hk
  obtain rfl | rfl | rfl : k = 0 ∨ k = 1 ∨ k = 2 := by omega
  · -- the first record is complete
    have hlong : ¬ 60 < (frames (Sample.outcomes.take 0)).length +
        (Edit.request { request := 1 }).framed.length := by decide +kernel
    exact absurd (hnext _ rfl) hlong
  · have htorn' : torn = true := htorn.mpr ⟨by decide, by decide +kernel⟩
    obtain ⟨status, hstatus, hrejected⟩ := hreject htorn'
    rw [htorn'] at hdiscard
    exact ⟨status, hstatus, hdiscard, hrejected⟩
  · -- the second is not
    have hlong : ¬ (frames (Sample.outcomes.take 2)).length ≤ 60 := by decide +kernel
    exact absurd hle hlong

/-! ### Snapshots -/

/-- A state that a snapshot holds and gives back. -/
structure VirtualizationState.Snapped (s : VirtualizationState) : Prop where
  fits : s.Fits snapshotNesting
  size : (encodeSnapshot s).length < 2 ^ 32

/-- A snapshot is read back as the state it was taken of. -/
theorem VirtualizationState.Snapped.decode (h : s.Snapped) :
    decodeSnapshotFile (encodeSnapshotFile s) = .ok s := by
  generalize hview : encodeSnapshotFile s = view
  rw [encodeSnapshotFile] at hview
  have h4 : view.drop 4 = putU32 (.ofNat schemaVersion) ++ (putU32 (.ofNat
      (encodeSnapshot s).length) ++ (putU32 (Crc32c.compute (encodeSnapshot s)) ++
        encodeSnapshot s)) := by rw [← hview, drop_putU32 _ _ 0, List.drop_zero]
  have h8 : view.drop 8 = putU32 (.ofNat (encodeSnapshot s).length) ++
      (putU32 (Crc32c.compute (encodeSnapshot s)) ++ encodeSnapshot s) := by
    rw [← hview, drop_putU32 _ _ 4, drop_putU32 _ _ 0, List.drop_zero]
  have h12 : view.drop 12 = putU32 (Crc32c.compute (encodeSnapshot s)) ++ encodeSnapshot s := by
    rw [← hview, drop_putU32 _ _ 8, drop_putU32 _ _ 4, drop_putU32 _ _ 0, List.drop_zero]
  have h16 : view.drop snapshotHeaderSize = encodeSnapshot s := by
    rw [← hview, snapshotHeaderSize, drop_putU32 _ _ 12, drop_putU32 _ _ 8, drop_putU32 _ _ 4,
      drop_putU32 _ _ 0, List.drop_zero]
  have hlong : view.length = snapshotHeaderSize + (encodeSnapshot s).length := by
    rw [← hview]
    simp only [List.length_append, length_putU32, snapshotHeaderSize]
    omega
  have hmagic : getU32 view 0 = snapshotMagic := getU32_of_drop (List.drop_zero.trans hview.symm)
  have hshort : ¬ view.length < snapshotHeaderSize := by omega
  have hlength : (getU32 view 8).toNat = (encodeSnapshot s).length := by
    rw [getU32_of_drop h8, UInt32.toNat_ofNat', Nat.mod_eq_of_lt h.size]
  have hsize : view.length - snapshotHeaderSize = (getU32 view 8).toNat := by omega
  have hcrc : Crc32c.compute (view.drop snapshotHeaderSize) = getU32 view 12 := by
    rw [h16, getU32_of_drop h12]
  have hdecode : decodeSnapshot (encodeSnapshot s) = .ok s :=
    Reader.run'_ok.mpr ⟨_, decodeWhole_of_reads (reads_state h.fits)⟩
  rw [decodeSnapshotFile]
  simp only [if_neg hshort, if_neg (not_not.mpr hmagic), if_neg (not_not.mpr (getU32_of_drop h4)),
    if_neg (not_not.mpr hsize), if_neg (not_not.mpr hcrc)]
  rw [h16, hdecode]

/-! ### Files -/

/-- What a new process finds in the files, before it is validated, and whether it discards the end
of the journal. -/
def Files.recovered (f : Files) (tornTail : TornTail) :
    Except Status (VirtualizationState × Bool) :=
  match (f.content .snapshot).elim (.ok {}) decodeSnapshotFile with
  | .error status => .error status
  | .ok state =>
    match (f.content .journal).filter (!·.isEmpty) with
    | none => .ok (state, false)
    | some bytes => replayJournal tornTail state bytes

/-- An incomplete record. -/
def Torn (part : Bytes) : Prop :=
  ∃ e : Edit, e.Storable ∧ part <+: e.framed ∧ part.length < e.framed.length ∧ part ≠ []

/-- The files hold a base, where there is a snapshot, and a log with perhaps an incomplete record
behind it, where there is a journal. -/
structure Files.Holds (f : Files) (base : Option VirtualizationState) (log : Option (List Edit))
    (part : Bytes) : Prop where
  snapshot : f.content .snapshot = base.map encodeSnapshotFile
  journal : f.content .journal = log.map fun l => journalOf l ++ part
  snapped : ∀ s, base = some s → s.Snapped
  storable : ∀ l, log = some l → ∀ e ∈ l, e.Storable
  torn : part = [] ∨ log ≠ none ∧ Torn part

/-- The base and the log that files hold; without a snapshot the base is empty. -/
def held (base : Option VirtualizationState) (log : Option (List Edit)) :
    Journaled VirtualizationState Edit :=
  ⟨base.getD {}, log.getD []⟩

/-- The length of the journal of a log. -/
theorem length_journalOf (log : List Edit) :
    (journalOf log).length = journalHeaderSize + (frames log).length := by
  rw [journalOf, List.length_append, length_journalHeaderBytes]

/-- A journal is never an empty file. -/
theorem filter_journalOf (log : List Edit) (part : Bytes) :
    (some (journalOf log ++ part)).filter (!·.isEmpty) = some (journalOf log ++ part) := by
  have hnonempty : (journalOf log ++ part).isEmpty = false := by
    rw [List.isEmpty_eq_false_iff, ← List.length_pos_iff_ne_nil, List.length_append,
      length_journalOf,
      journalHeaderSize]
    omega
  simp [Option.filter, hnonempty]

/-- What files hold is recovered; an incomplete record is refused or discarded. -/
theorem Files.Holds.recovered {f : Files} {base : Option VirtualizationState}
    {log : Option (List Edit)} {part : Bytes} (h : f.Holds base log part) :
    f.recovered .discard = .ok ((held base log).content edited, decide (part ≠ [])) ∧
      (part = [] → f.recovered .reject = .ok ((held base log).content edited, false)) ∧
      (part ≠ [] → ∃ status : Status, status.code = .truncatedState ∧
        f.recovered .reject = .error status) := by
  have hbase : (f.content .snapshot).elim (.ok {}) decodeSnapshotFile = .ok (base.getD {}) := by
    rw [h.snapshot]
    cases base with
    | none => rfl
    | some s => exact (h.snapped s rfl).decode
  simp only [Files.recovered, hbase, h.journal]
  cases log with
  | none =>
    have hnil : part = [] := h.torn.resolve_right fun hsome => hsome.1 rfl
    subst hnil
    exact ⟨rfl, fun _ => rfl, fun hne => absurd rfl hne⟩
  | some l =>
    have hsome := filter_journalOf l part
    simp only [Option.map_some, hsome]
    have hstorable := h.storable l rfl
    have hframes : ∀ tornTail, replayJournal tornTail (base.getD {}) (journalOf l ++ part) =
        replay tornTail (journalHeaderSize + (frames l).length) part
          (l.foldl edited (base.getD {})) := by
      intro tornTail
      rw [journalOf, List.append_assoc, replayJournal_eq, replay_frames hstorable]
    -- what is torn is a proper prefix of a record, and it is dropped or refused
    obtain hnil | ⟨-, e, he, hprefix, hlt, hne⟩ := h.torn
    · subst hnil
      simp only [hframes]
      exact ⟨replay_nil, fun _ => replay_nil, fun hne => absurd rfl hne⟩
    · obtain ⟨detail, hdiscard⟩ := replay_prefix .discard he hprefix hlt hne
        (journalHeaderSize + (frames l).length) (l.foldl edited (base.getD {}))
      obtain ⟨detail', hreject⟩ := replay_prefix .reject he hprefix hlt hne
        (journalHeaderSize + (frames l).length) (l.foldl edited (base.getD {}))
      simp only [hframes]
      refine ⟨?_, fun hnil => absurd hnil hne, fun _ => ⟨_, rfl, hreject⟩⟩
      rw [hdiscard, decide_eq_true hne]
      rfl

/-- Complete records are found whatever is done with a torn tail. -/
theorem Files.Holds.found {f : Files} {base : Option VirtualizationState} {log : Option (List Edit)}
    (h : f.Holds base log []) (tornTail : TornTail) :
    f.recovered tornTail = .ok ((held base log).content edited, false) := by
  cases tornTail with
  | discard => exact h.recovered.1
  | reject => exact h.recovered.2.1 rfl

end AcceleratorVirtualization
