import AcceleratorVirtualization.Invariants.Durable
import AcceleratorVirtualization.Lib.Journaling
import AcceleratorVirtualization.Store.Files
import AcceleratorVirtualization.Wire.StateLaws

/-!
# What a journal record does

A record of the journal replaces the scalars or one entity, or extends one of the three windows. A
record that fits is decoded to what was encoded, so the records of a change set, applied one after
the other, make of an older state what the change set makes of it.
-/

namespace AcceleratorVirtualization

open Journaling

/-- A window is extended as a window is. -/
theorem Impl.pushWindow_eq_slide {α : Type} (capacity : ℕ) (window new : List α) :
    pushWindow capacity window new = slide capacity window new := by
  unfold pushWindow
  simp only
  split
  · rename_i hroom
    rw [slide_eq_append hroom]
  · rfl

/-- What one record says. -/
inductive Edit
  | header (source : VirtualizationState)
  | entity (k : RecordKind) (record : k.Record)
  | audit (entry : AuditEntry)
  | decision (entry : Decision)
  | request (record : RequestOutcomeRecord)

/-- The parts of a state that a record replaces. -/
inductive Cell
  | header
  | entity (k : RecordKind) (id : ℕ)
  deriving DecidableEq

/-- What a cell holds: the header fields of the state, or the record under an id if there is one. -/
def Cell.Content : Cell → Type
  | .header => VirtualizationState
  | .entity k _ => Option k.Record

namespace VirtualizationState

/-- What cell `c` of the state holds. -/
def look (s : VirtualizationState) : (c : Cell) → c.Content
  | .header => s.header
  | .entity k id => s.find k id

/-- The state with what a record says. -/
def edited (s : VirtualizationState) : Edit → VirtualizationState
  | .header source =>
    { s with
      schema := source.schema
      nextSequence := source.nextSequence
      epoch := source.epoch
      policy := source.policy
      policyGeneration := source.policyGeneration
      accounting := source.accounting }
  | .entity k record => s.put k (k.idOf record) record
  | .audit entry => { s with audit := Impl.pushWindow auditCapacity s.audit [entry] }
  | .decision entry =>
    { s with decisions := Impl.pushWindow decisionCapacity s.decisions [entry] }
  | .request record =>
    { s with requests := Impl.pushWindow requestWindowCapacity s.requests [record] }

end VirtualizationState

namespace Edit

/-- How a record is encoded. -/
def encoded : Edit → EncodedChange
  | .header source => ⟨.header, 0, encodeHeader source⟩
  | .entity k record => ⟨.entity k, k.idOf record, encodeRecord k record⟩
  | .audit entry => ⟨.audit, entry.id, encodeAudit entry⟩
  | .decision entry => ⟨.decision, entry.id, encodeDecision entry⟩
  | .request record => ⟨.request, record.request, encodeRequestOutcome record⟩

/-- A record that the journal's decoders take. -/
def Fits : Edit → Prop
  | .header source => source.HeaderFits journalNesting
  | .entity k record => k.Fits journalNesting record
  | .audit entry => entry.Fits journalNesting.limits
  | .decision entry => entry.Fits journalNesting.limits
  | .request record => record.Fits journalNesting.limits

/-- A record that fits, and is no longer than a journal record may be. -/
structure Storable (e : Edit) : Prop where
  fits : e.Fits
  size : journalRecordPrefixSize + e.encoded.body.length ≤ maxJournalRecord

/-- The part of the state that a record replaces, if it replaces one. -/
def cell : Edit → Option Cell
  | .header _ => some .header
  | .entity k record => some (.entity k (k.idOf record))
  | .audit _ | .decision _ | .request _ => none

/-- The audit entry that an edit appends, if it appends one. -/
def auditEntry : Edit → Option AuditEntry
  | .audit entry => some entry
  | _ => none

/-- The decision that an edit appends, if it appends one. -/
def decisionEntry : Edit → Option Decision
  | .decision entry => some entry
  | _ => none

/-- The request outcome that an edit appends, if it appends one. -/
def requestEntry : Edit → Option RequestOutcomeRecord
  | .request record => some record
  | _ => none

end Edit

namespace VirtualizationState

/-! ### Cells and windows -/

/-- An edit of a cell overwrites that cell only. -/
theorem overwriting_edited : Overwriting edited (fun c s => s.look c) Edit.cell where
  written a c s t h := by
    cases a with
    | header source =>
      obtain rfl : Cell.header = c := Option.some.inj h
      rfl
    | entity k record =>
      obtain rfl : Cell.entity k (k.idOf record) = c := Option.some.inj h
      change (s.put k _ record).find k _ = (t.put k _ record).find k _
      rw [find_put_self, find_put_self, if_pos rfl, if_pos rfl]
    | _ => cases h
  kept a c s h := by
    cases c with
    | header =>
      cases a with
      | header source => exact absurd rfl h
      | entity k record =>
        simp only [look, edited, put]
        cases k <;> rfl
      | _ => rfl
    | entity k id =>
      cases a with
      | header source => cases k <;> rfl
      | entity k' record =>
        simp only [look, edited]
        by_cases hk : k = k'
        · subst hk
          rw [find_put_self, if_neg fun hid => h (by rw [Edit.cell, hid])]
        · rw [find_put_of_ne _ _ hk]
      | _ => cases k <;> rfl

/-- Audit entries slide through a window. -/
theorem sliding_audit : Sliding edited (·.audit) Edit.auditEntry auditCapacity := by
  rintro s (source | ⟨k, record⟩ | entry | entry | record)
  · exact .inr ⟨rfl, rfl⟩
  · exact .inr ⟨rfl, by cases k <;> rfl⟩
  · exact .inl (Impl.pushWindow_eq_slide ..)
  · exact .inr ⟨rfl, rfl⟩
  · exact .inr ⟨rfl, rfl⟩

/-- Decisions slide through a window. -/
theorem sliding_decisions :
    Sliding edited (·.decisions) Edit.decisionEntry decisionCapacity := by
  rintro s (source | ⟨k, record⟩ | entry | entry | record)
  · exact .inr ⟨rfl, rfl⟩
  · exact .inr ⟨rfl, by cases k <;> rfl⟩
  · exact .inr ⟨rfl, rfl⟩
  · exact .inl (Impl.pushWindow_eq_slide ..)
  · exact .inr ⟨rfl, rfl⟩

/-- Request outcomes slide through a window. -/
theorem sliding_requests :
    Sliding edited (·.requests) Edit.requestEntry requestWindowCapacity := by
  rintro s (source | ⟨k, record⟩ | entry | entry | record)
  · exact .inr ⟨rfl, rfl⟩
  · exact .inr ⟨rfl, by cases k <;> rfl⟩
  · exact .inr ⟨rfl, rfl⟩
  · exact .inr ⟨rfl, rfl⟩
  · exact .inl (Impl.pushWindow_eq_slide ..)

/-- The windows are no longer than they may be. -/
structure Windowed (s : VirtualizationState) : Prop where
  audit : s.audit.length ≤ auditCapacity
  decisions : s.decisions.length ≤ decisionCapacity
  requests : s.requests.length ≤ requestWindowCapacity

/-- States with the same cells and the same windows. -/
theorem ext_look {s t : VirtualizationState} (hc : ∀ c, s.look c = t.look c)
    (hw : s.audit = t.audit ∧ s.decisions = t.decisions ∧ s.requests = t.requests) : s = t := by
  have hheader : s.header = t.header := hc .header
  refine Impl.state_ext (fun k => Std.ExtTreeMap.ext_getElem? fun id => hc (.entity k id)) ?_ hw
  exact ⟨congrArg (·.nextSequence) hheader, congrArg (·.epoch) hheader,
    congrArg (·.policy) hheader, congrArg (·.policyGeneration) hheader,
    congrArg (·.accounting) hheader, congrArg (·.schema) hheader⟩

end VirtualizationState

open VirtualizationState

/-! ### Change sets -/

/-- The records of a change set, as they are in a state. -/
def edits (state : VirtualizationState) (changes : ChangeSet) : List Edit :=
  (if changes.header then [.header state] else []) ++
  RecordKind.all.flatMap (fun k => (changes.ids k).toList.filterMap fun id =>
    (state.find k id).map (.entity k)) ++
  changes.audit.map .audit ++ changes.decisions.map .decision ++ changes.requests.map .request

/-- A change set is encoded record by record. -/
theorem encodeChanges_eq {state : VirtualizationState} {changes : ChangeSet}
    (h : ∀ k id r, state.find k id = some r → k.idOf r = id) :
    encodeChanges state changes = (edits state changes).map Edit.encoded := by
  have hentities : ∀ k, (changes.ids k).toList.filterMap (fun id =>
      (state.find k id).map fun record =>
        (⟨.entity k, id, encodeRecord k record⟩ : EncodedChange)) =
      ((changes.ids k).toList.filterMap fun id => (state.find k id).map (Edit.entity k)).map
        Edit.encoded := by
    intro k
    rw [List.map_filterMap]
    refine List.filterMap_congr fun id _ => ?_
    cases hr : state.find k id with
    | none => rfl
    | some r => simp only [Option.map_some, Edit.encoded, h k id r hr]
  simp only [encodeChanges, edits, List.map_append, List.map_flatMap, List.map_map]
  simp only [hentities]
  congr 4
  split <;> rfl

/-- The entity records among the edits are those of the touched identities. -/
theorem mem_edits_entity {state : VirtualizationState} {changes : ChangeSet} {k : RecordKind}
    {record : k.Record} : Edit.entity k record ∈ edits state changes ↔
      ∃ id ∈ changes.ids k, state.find k id = some record := by
  have hall : k ∈ RecordKind.all := by cases k <;> decide
  simp only [edits, List.mem_append, List.mem_flatMap, List.mem_filterMap, List.mem_map,
    Option.map_eq_some_iff, Std.ExtTreeSet.mem_toList]
  constructor
  · rintro ((((hheader | ⟨k', -, id, hid, r, hr, he⟩) | ⟨_, -, he⟩) | ⟨_, -, he⟩) | ⟨_, -, he⟩)
    · split at hheader
      · cases List.mem_singleton.mp hheader
      · cases hheader
    · cases he
      exact ⟨id, hid, hr⟩
    all_goals cases he
  · rintro ⟨id, hid, hr⟩
    exact .inl (.inl (.inl (.inr ⟨k, hall, id, hid, record, hr, rfl⟩)))

/-- The header is among the edits when it was asked for. -/
theorem mem_edits_header {state source : VirtualizationState} {changes : ChangeSet} :
    Edit.header source ∈ edits state changes ↔ changes.header = true ∧ source = state := by
  simp only [edits, List.mem_append, List.mem_flatMap, List.mem_filterMap, List.mem_map,
    Option.map_eq_some_iff]
  constructor
  · rintro ((((hheader | ⟨k', -, id, -, r, -, he⟩) | ⟨_, -, he⟩) | ⟨_, -, he⟩) | ⟨_, -, he⟩)
    · split at hheader
      · rename_i hset
        cases List.mem_singleton.mp hheader
        exact ⟨hset, rfl⟩
      · cases hheader
    all_goals cases he
  · rintro ⟨hset, rfl⟩
    exact .inl (.inl (.inl (.inl (by rw [if_pos hset]; exact List.mem_singleton_self _))))

/-- What is taken from the entries of the windows alone. -/
theorem filterMap_edits {β : Type} {f : Edit → Option β} (state : VirtualizationState)
    (changes : ChangeSet) (hheader : ∀ source, f (.header source) = none)
    (hentity : ∀ k record, f (.entity k record) = none) :
    (edits state changes).filterMap f = changes.audit.filterMap (fun e => f (.audit e)) ++
      changes.decisions.filterMap (fun e => f (.decision e)) ++
      changes.requests.filterMap fun e => f (.request e) := by
  have hentities : (RecordKind.all.flatMap fun k => (changes.ids k).toList.filterMap fun id =>
      (state.find k id).map (Edit.entity k)).filterMap f = [] := by
    refine List.filterMap_eq_nil_iff.mpr fun e he => ?_
    simp only [List.mem_flatMap, List.mem_filterMap, Option.map_eq_some_iff] at he
    obtain ⟨k, -, id, -, r, -, rfl⟩ := he
    exact hentity k r
  have hscalars : (if changes.header then [Edit.header state] else []).filterMap f = [] := by
    refine List.filterMap_eq_nil_iff.mpr fun e he => ?_
    split at he
    · rw [List.mem_singleton.mp he, hheader]
    · cases he
  simp only [edits, List.filterMap_append, List.filterMap_map, hentities, hscalars,
    List.nil_append, Function.comp_def]

section Merge

variable {old new : VirtualizationState} {changes : ChangeSet} {e : Edit}

/-- A record of a change set that replaces an entity has it as it is in the state. -/
theorem eq_entity_of_mem_edits (hkeyed : ∀ k id r, new.find k id = some r → k.idOf r = id)
    {k : RecordKind} {id : ℕ} (he : e ∈ edits new changes) (hc : e.cell = some (.entity k id)) :
    ∃ r, e = .entity k r ∧ id ∈ changes.ids k ∧ new.find k id = some r := by
  cases e with
  | entity k' record =>
    obtain ⟨id', hid, hr⟩ := mem_edits_entity.mp he
    have hid' := hkeyed k' id' record hr
    cases hc
    exact ⟨record, rfl, by rwa [hid'], by rwa [hid']⟩
  | _ => cases hc

/-- The records of a change set, applied one after the other, are the change set applied. -/
theorem foldl_edits (hw : old.Windowed)
    (hkeyed : ∀ k id r, new.find k id = some r → k.idOf r = id)
    (hkept : ∀ k, ∀ id ∈ changes.ids k, new.find k id = none → old.find k id = none)
    (hheader : changes.header = true) :
    (edits new changes).foldl edited old = Disk.merge old new changes := by
  have ho := overwriting_edited
  obtain ⟨haudit, hdecisions, hrequests⟩ := Disk.windows_merge old new changes
  refine ext_look (fun c => ?_) ⟨?_, ?_, ?_⟩
  · cases c with
    | header =>
      -- only the header edit writes the header cell, and it is among the edits
      obtain ⟨hs, hn, hep, hp, hg, hac⟩ := Disk.scalars_merge old new hheader
      have hmerged : (Disk.merge old new changes).look .header = new.header := by
        change (Disk.merge old new changes).header = new.header
        simp only [VirtualizationState.header, hs, hn, hep, hp, hg, hac]
      rw [hmerged]
      refine ho.look_foldl_eq (fun e he hc s => ?_)
        ⟨.header new, mem_edits_header.mpr ⟨hheader, rfl⟩, rfl⟩ old
      cases e with
      | header source =>
        obtain ⟨-, rfl⟩ := mem_edits_header.mp he
        rfl
      | _ => cases hc
    | entity k id =>
      change _ = (Disk.merge old new changes).find k id
      rw [Disk.find_merge]
      cases hr : new.find k id with
      | none =>
        -- what is not in the state has no edit
        have hnone : ∀ e ∈ edits new changes, e.cell ≠ some (.entity k id) := by
          intro e he hc
          obtain ⟨r, -, -, hr'⟩ := eq_entity_of_mem_edits hkeyed he hc
          rw [hr] at hr'
          cases hr'
        rw [ho.look_foldl_of_forall hnone]
        split
        · rename_i hid
          exact hkept k id hid hr
        · rfl
      | some record =>
        by_cases hid : id ∈ changes.ids k
        · rw [if_pos hid]
          refine ho.look_foldl_eq (fun e he hc s => ?_) ⟨.entity k record,
            mem_edits_entity.mpr ⟨id, hid, hr⟩, by rw [Edit.cell, hkeyed k id record hr]⟩ old
          obtain ⟨r, rfl, -, hr'⟩ := eq_entity_of_mem_edits hkeyed he hc
          change (s.put k _ r).find k id = _
          rw [find_put_self, if_pos (hkeyed k id r hr'), ← hr', hr]
        · rw [if_neg hid]
          refine ho.look_foldl_of_forall (fun e he hc => ?_) old
          obtain ⟨r, -, hid', -⟩ := eq_entity_of_mem_edits hkeyed he hc
          exact hid hid'
  · rw [haudit, Impl.pushWindow_eq_slide, sliding_audit.window_foldl _ hw.audit, filterMap_edits]
    · simp [Edit.auditEntry]
    all_goals intros; rfl
  · rw [hdecisions, Impl.pushWindow_eq_slide, sliding_decisions.window_foldl _ hw.decisions,
      filterMap_edits]
    · simp [Edit.decisionEntry]
    all_goals intros; rfl
  · rw [hrequests, Impl.pushWindow_eq_slide, sliding_requests.window_foldl _ hw.requests,
      filterMap_edits]
    · simp [Edit.requestEntry]
    all_goals intros; rfl

end Merge

/-! ### Decoding -/

/-- What is decoded from an encoded record does to a state what the record does. -/
theorem reads_applyRecord {e : Edit} (h : e.Fits) (s : VirtualizationState) :
    Reader.Reads journalNesting (applyRecord s e.encoded.kind) e.encoded.body (s.edited e) := by
  cases e with
  | header source => exact (reads_header h).last Reader.reads_pure
  | entity k record => exact (reads_record h).last Reader.reads_pure
  | audit entry => exact (reads_audit h).last Reader.reads_pure
  | decision entry => exact (reads_decision h).last Reader.reads_pure
  | request record => exact (reads_requestOutcome h).last Reader.reads_pure

/-- Replaying an encoded record has the effect of its edit. -/
theorem applyRecord_encoded {e : Edit} (h : e.Fits) (s : VirtualizationState) :
    (applyRecord s e.encoded.kind).run' (Decoder.of e.encoded.body) = .ok (s.edited e) := by
  have hrun := reads_applyRecord h s []
  rw [List.append_nil] at hrun
  exact Reader.run'_ok.mpr ⟨_, hrun⟩

end AcceleratorVirtualization
