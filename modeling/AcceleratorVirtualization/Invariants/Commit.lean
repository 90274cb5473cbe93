import AcceleratorVirtualization.Runtime.Run
import AcceleratorVirtualization.Invariants.TrackedOperations

/-!
# Commit and rollback

What is left of an operation once it is recorded and handed to the store. If the write
succeeds, the state is the one the operation made, with its decision and audit entry in the
windows. If it fails, the records are the ones the operation found, for every kind of record
it tracked; the windows are cut back to the lengths they had, which are not the entries they
had once an entry was evicted.
-/

namespace AcceleratorVirtualization

open VirtualizationState

/-- One entry for each window where an outcome is reported; for the requests only under a request
identity. -/
structure ChangeSet.Enters (reported : Bool) (request : RequestId) (c : ChangeSet) : Prop where
  audit : c.audit.length = reported.toNat
  decisions : c.decisions.length = reported.toNat
  requests : c.requests.length = (reported && valid request).toNat

/-- The counters of what there is now. The others count what has happened. -/
def AccountingCounters.current (a : AccountingCounters) : ℕ × ℕ × ℕ :=
  (a.virtualActive, a.attachmentsActive, a.bytesAllocatedCurrent)

namespace Impl

variable {σ : Type}

/-! ### Restoring a map -/

theorem getElem?_setRecord {α : Type} (map : IdMap α) (id : ℕ) (r : Option α) (id' : ℕ) :
    (setRecord map id r)[id']? = if id = id' then r else map[id']? := by
  cases r <;> simp [setRecord, Std.ExtTreeMap.getElem?_insert, Std.ExtTreeMap.getElem?_erase]

private theorem getElem?_restore {α : Type} (id : ℕ) (l : List (ℕ × Option α))
    (hl : l.Pairwise fun a b => a.1 ≠ b.1) (map : IdMap α) :
    (l.foldl (fun map entry => setRecord map entry.1 entry.2) map)[id]? =
      ((l.find? fun entry => entry.1 = id).map Prod.snd).getD map[id]? := by
  induction l generalizing map with
  | nil => rfl
  | cons entry l ih =>
    obtain ⟨id', previous⟩ := entry
    rw [List.pairwise_cons] at hl
    rw [List.foldl_cons, ih hl.2, getElem?_setRecord]
    by_cases h : id' = id
    · subst h
      have hnone : l.find? (fun entry => entry.1 = id') = none := by
        rw [List.find?_eq_none]
        intro entry he
        simpa using (hl.1 entry he).symm
      simp [hnone]
    · simp [h]

/-- A touched identity gets back what was saved for it; the others are left alone. -/
theorem getElem?_restoreMap {α : Type} (map : IdMap α) (saved : IdMap (Option α)) (id : ℕ) :
    (restoreMap map saved)[id]? = saved[id]?.getD map[id]? := by
  have hfind : saved[id]? = (saved.toList.find? fun entry => entry.1 = id).map Prod.snd := by
    cases hf : saved.toList.find? fun entry => entry.1 = id with
    | none =>
      rw [List.find?_eq_none] at hf
      by_contra hne
      obtain ⟨r, hr⟩ := Option.ne_none_iff_exists'.mp hne
      exact hf (id, r) (Std.ExtTreeMap.mem_toList_iff_getElem?_eq_some.mpr hr) (by simp)
    | some entry =>
      have hmem := List.mem_of_find?_eq_some hf
      have hid : entry.1 = id := by simpa using List.find?_some hf
      rw [← hid]
      exact Std.ExtTreeMap.mem_toList_iff_getElem?_eq_some.mp hmem
  have hdistinct : saved.toList.Pairwise fun a b => a.1 ≠ b.1 :=
    Std.ExtTreeMap.distinct_keys_toList.imp fun h => by simpa using h
  unfold restoreMap
  rw [Std.ExtTreeMap.foldl_eq_foldl_toList, hfind]
  exact getElem?_restore id _ hdistinct map

/-! ### Rolling back -/

/-- A step on the map of every kind. -/
private theorem foldl_setEntities (g : (k : RecordKind) → IdMap k.Record → IdMap k.Record)
    (s : VirtualizationState) :
    RecordKind.all.foldl (fun s k => s.setEntities k (g k (s.entities k))) s =
      { s with
        tenants := g .tenant s.tenants, physical := g .physical s.physical
        backings := g .backing s.backings, virtuals := g .virtual s.virtuals
        leases := g .lease s.leases, assignments := g .assignment s.assignments
        migrations := g .migration s.migrations, evidence := g .evidence s.evidence } := by
  simp only [RecordKind.all, List.foldl_cons, List.foldl_nil, setEntities, entities]

theorem entities_rollback (im : Impl σ) (k : RecordKind) :
    im.rollback.state.entities k = restoreMap (im.state.entities k) (im.undo.saved k) := by
  simp only [rollback]
  rw [foldl_setEntities fun k map => restoreMap map (im.undo.saved k)]
  split <;> cases k <;> rfl

theorem find_rollback (im : Impl σ) (k : RecordKind) (id : ℕ) :
    im.rollback.state.find k id = ((im.undo.saved k)[id]?).getD (im.state.find k id) := by
  rw [find, entities_rollback, getElem?_restoreMap, find]

/-- The scalars of the undo log are put back and the windows cut to the lengths it names. -/
theorem rollback_scalars {im : Impl σ} (h : im.undo.header = true) :
    im.rollback.state = { im.rollback.state with
      schema := im.state.schema
      nextSequence := im.undo.nextSequence
      epoch := im.undo.epoch
      policy := im.undo.policy
      policyGeneration := im.undo.policyGeneration
      accounting := im.undo.accounting
      audit := im.state.audit.take im.undo.auditSize
      decisions := im.state.decisions.take im.undo.decisionSize
      requests := im.state.requests.take im.undo.requestSize } := by
  simp only [rollback, h, if_true]
  rw [foldl_setEntities fun k map => restoreMap map (im.undo.saved k)]

/-- The undo log is the one of an operation that began in a state, and every record that was
not touched is still the one of that state. -/
structure Undoes (s : VirtualizationState) (im : Impl σ) : Prop where
  undo : im.undo = { UndoLog.ofState s with saved := im.undo.saved }
  saved : ∀ k id r, (im.undo.saved k)[id]? = some r → r = s.find k id
  untouched : ∀ k id, id ∉ im.undo.saved k → im.state.find k id = s.find k id
  schema : im.state.schema = s.schema

variable {s : VirtualizationState} {im : Impl σ}

/-- The records of the tracked kinds are restored. -/
theorem Undoes.find_rollback (h : Undoes s im) (k : RecordKind) (id : ℕ) :
    im.rollback.state.find k id = s.find k id := by
  rw [Impl.find_rollback]
  cases hs : (im.undo.saved k)[id]? with
  | none =>
    rw [Option.getD_none]
    exact h.untouched k id (by simpa using hs)
  | some r =>
    rw [Option.getD_some]
    exact h.saved k id r hs

theorem Undoes.entities_rollback (h : Undoes s im) (k : RecordKind) :
    im.rollback.state.entities k = s.entities k :=
  Std.ExtTreeMap.ext_getElem? fun id => h.find_rollback k id

/-- The scalars are restored, whatever was tracked. -/
theorem Undoes.scalars_rollback (h : Undoes s im) :
    im.rollback.state.nextSequence = s.nextSequence ∧ im.rollback.state.epoch = s.epoch ∧
      im.rollback.state.policy = s.policy ∧
      im.rollback.state.policyGeneration = s.policyGeneration ∧
      im.rollback.state.accounting = s.accounting ∧ im.rollback.state.schema = s.schema := by
  rw [rollback_scalars (congrArg UndoLog.header h.undo)]
  exact ⟨congrArg UndoLog.nextSequence h.undo, congrArg UndoLog.epoch h.undo,
    congrArg UndoLog.policy h.undo, congrArg UndoLog.policyGeneration h.undo,
    congrArg UndoLog.accounting h.undo, h.schema⟩

/-- The windows are cut to the lengths they had. -/
theorem Undoes.windows_rollback (h : Undoes s im) :
    im.rollback.state.audit = im.state.audit.take s.audit.length ∧
      im.rollback.state.decisions = im.state.decisions.take s.decisions.length ∧
      im.rollback.state.requests = im.state.requests.take s.requests.length := by
  rw [rollback_scalars (congrArg UndoLog.header h.undo)]
  exact ⟨congrArg (im.state.audit.take ·.auditSize) h.undo,
    congrArg (im.state.decisions.take ·.decisionSize) h.undo,
    congrArg (im.state.requests.take ·.requestSize) h.undo⟩

/-- States are equal if their scalars, their windows and their maps are. -/
theorem state_ext {s t : VirtualizationState} (hk : ∀ k, s.entities k = t.entities k)
    (hs : s.nextSequence = t.nextSequence ∧ s.epoch = t.epoch ∧ s.policy = t.policy ∧
      s.policyGeneration = t.policyGeneration ∧ s.accounting = t.accounting ∧
      s.schema = t.schema)
    (hw : s.audit = t.audit ∧ s.decisions = t.decisions ∧ s.requests = t.requests) : s = t := by
  have h1 := hk .tenant
  have h2 := hk .physical
  have h3 := hk .backing
  have h4 := hk .virtual
  have h5 := hk .lease
  have h6 := hk .assignment
  have h7 := hk .migration
  have h8 := hk .evidence
  simp only [entities] at h1 h2 h3 h4 h5 h6 h7 h8
  cases s
  cases t
  simp_all

/-! ### Recording and committing -/

/-- The outcome of an operation with what was recorded about it, as it goes to the store. -/
def settle (im : Impl σ) (clock : Clock) (context : OpContext) (status : Status)
    (kind : AuditKind) : Impl σ :=
  let im := if status.ok then im else im.accountRefusal status.code
  let im := im.record clock context status.code status.detail kind
  if valid context.request then
    { im with changes.requests := im.changes.requests ++
        [⟨context.request, context.session, context.operation, status.code, clock.request⟩] }
  else im

theorem finalize_eq [DurableStore σ] (clock : Clock) (context : OpContext) (status : Status)
    (kind : AuditKind) :
    im.finalize clock context status kind = (im.settle clock context status kind).commit := rfl

/-- What recording an outcome does: it uses up two identities, adds the entries, asks for the
header, and leaves the records and the windows alone. -/
structure Settles (im im' : Impl σ) : Prop where
  undo : im'.undo = im.undo
  store : im'.store = im.store
  options : im'.options = im.options
  ids : im'.changes.ids = im.changes.ids
  header : im'.changes.header = true
  decisions : ∃ d, im'.changes.decisions = im.changes.decisions ++ [d] ∧
    d.id = im.state.nextSequence
  audit : ∃ e, im'.changes.audit = im.changes.audit ++ [e] ∧ e.id = im.state.nextSequence + 1
  entities : im'.state.entities = im.state.entities
  nextSequence : im'.state.nextSequence = im.state.nextSequence + 2
  epoch : im'.state.epoch = im.state.epoch
  policy : im'.state.policy = im.state.policy
  policyGeneration : im'.state.policyGeneration = im.state.policyGeneration
  current : im'.state.accounting.current = im.state.accounting.current
  schema : im'.state.schema = im.state.schema
  windows : im'.state.audit = im.state.audit ∧ im'.state.decisions = im.state.decisions ∧
    im'.state.requests = im.state.requests

/-- A refusal is booked in counters of its own. -/
theorem current_countRefusal (code : StatusCode) (a : AccountingCounters) :
    (countRefusal code a).current = a.current := by
  cases code <;> rfl

theorem current_accountRefusal (im : Impl σ) (code : StatusCode) :
    (im.accountRefusal code).state.accounting.current = im.state.accounting.current := by
  refine (current_countRefusal code _).trans ?_
  split
  · rfl
  · split <;> rfl

theorem settles (im : Impl σ) (clock : Clock) (context : OpContext) (status : Status)
    (kind : AuditKind) : Settles im (im.settle clock context status kind) := by
  unfold settle
  split <;> split <;>
    refine ⟨rfl, rfl, rfl, rfl, rfl, ⟨_, rfl, rfl⟩, ⟨_, rfl, rfl⟩, rfl, rfl, rfl, rfl, rfl, ?_,
      rfl, ⟨rfl, rfl, rfl⟩⟩
  · rfl
  · rfl
  · exact current_accountRefusal im status.code
  · exact current_accountRefusal im status.code

theorem requests_settle (im : Impl σ) (clock : Clock) (context : OpContext) (status : Status)
    (kind : AuditKind) : (im.settle clock context status kind).changes.requests =
      im.changes.requests ++ if valid context.request then
        [⟨context.request, context.session, context.operation, status.code, clock.request⟩]
        else [] := by
  unfold settle
  split <;> split <;> simp_all [accountRefusal, record, account, takeId, touchHeader]

/-- The runtime as it is handed to the store: the new entries are in the windows. -/
def extended (im : Impl σ) : Impl σ := { im with state := pushWindows im.state im.changes }

theorem entities_extended (im : Impl σ) : im.extended.state.entities = im.state.entities := by
  funext k
  cases k <;> simp only [extended, pushWindows, VirtualizationState.entities]

/-- A commit that is persisted keeps the state; the other one is rolled back. -/
theorem commit_cases [DurableStore σ] (im : Impl σ) :
    (∃ store, im.extended.persistChanges = (store, .ok ()) ∧
      im.commit = ({ im.extended with store, changes := {}, undo := {} }, .ok ())) ∨
    ∃ store status, im.extended.persistChanges = (store, .error status) ∧
      im.commit = (rollback { im.extended with
        store := store, storeFailed := true, storeFailure := status },
        .error ⟨status.code, txt "durable persistence failed: " ++ status.toText⟩) := by
  rcases hp : im.extended.persistChanges with ⟨store, status | ⟨⟩⟩
  · refine .inr ⟨store, status, rfl, ?_⟩
    simp only [commit]
    rw [show persistChanges { im with state := pushWindows im.state im.changes } = _ from hp]
    rfl
  · refine .inl ⟨store, rfl, ?_⟩
    simp only [commit]
    rw [show persistChanges { im with state := pushWindows im.state im.changes } = _ from hp]
    rfl

/-! ### What goes to the store -/

/-- The runtime of an operation that began in another one, just before it commits. -/
structure Ready (s im : Impl σ) : Prop where
  store : im.store = s.store
  options : im.options = s.options
  undo : im.undo = { UndoLog.ofState s.state with saved := im.undo.saved }
  saved : ∀ k id r, (im.undo.saved k)[id]? = some r → r = s.state.find k id
  untouched : ∀ k id, id ∉ im.undo.saved k → im.state.find k id = s.state.find k id
  listed : ∀ k id, id ∈ im.changes.ids k ↔ id ∈ im.undo.saved k
  wellKeyed : im.state.WellKeyed
  advanced : s.state.nextSequence ≤ im.state.nextSequence
  schema : im.state.schema = s.state.schema
  epoch : im.state.epoch = s.state.epoch
  windows : im.state.audit = s.state.audit ∧ im.state.decisions = s.state.decisions ∧
    im.state.requests = s.state.requests
  header : im.changes.header = true

/-- An operation with its outcome recorded. -/
theorem Tracks.ready {s : Impl σ} {T : Set (RecordKind × ℕ)} (h : Tracks s T im) (clock : Clock)
    (context : OpContext) (status : Status) (kind : AuditKind) :
    Ready s (im.settle clock context status kind) := by
  have hs := settles im clock context status kind
  generalize im.settle clock context status kind = im' at hs
  have hfind : ∀ k id, im'.state.find k id = im.state.find k id :=
    fun k id => by rw [find, hs.entities, find]
  refine ⟨hs.store.trans h.store, hs.options.trans h.options, ?_, ?_, ?_, ?_,
    h.wellKeyed.advance hs.entities (by rw [hs.nextSequence]; exact Nat.le_add_right _ _), ?_,
    hs.schema.trans h.schema, hs.epoch.trans h.epoch, ?_, hs.header⟩
  · rw [hs.undo]
    exact h.undo
  · rw [hs.undo]
    exact h.saved
  · intro k id hid
    rw [hfind]
    exact h.untouched k id (hs.undo ▸ hid)
  · rw [hs.undo, hs.ids]
    exact h.listed
  · rw [hs.nextSequence]
    exact Nat.le_add_right_of_le h.advanced
  · rw [hs.windows.1, hs.windows.2.1, hs.windows.2.2]
    exact h.windows

/-- An operation enters its outcome. -/
theorem Tracks.enters {s : Impl σ} {T : Set (RecordKind × ℕ)} (h : Tracks s T im) (clock : Clock)
    (context : OpContext) (status : Status) (kind : AuditKind) :
    (im.settle clock context status kind).changes.Enters true context.request := by
  have hs := settles im clock context status kind
  obtain ⟨d, hd, -⟩ := hs.decisions
  obtain ⟨e, he, -⟩ := hs.audit
  refine ⟨?_, ?_, ?_⟩
  · simp [he, h.unrecorded.1]
  · simp [hd, h.unrecorded.2.1]
  · rw [requests_settle, h.unrecorded.2.2, Bool.true_and]
    cases valid context.request <;> rfl

/-- An operation that only asks for the header. -/
theorem ready_touchHeader (h : im.state.WellKeyed) : Ready im im.beginOp.touchHeader := by
  have ht : Tracks im ∅ im.beginOp.touchHeader := (Tracks.beginOp h).touchHeader
  exact { ht with header := rfl }

theorem Ready.undoes {s : Impl σ} (h : Ready s im) (store : Option σ) (status : Status) :
    Undoes s.state { im.extended with
      store := store, storeFailed := true, storeFailure := status } :=
  ⟨h.undo, h.saved, fun k id hid => by
    rw [find, entities_extended]
    exact h.untouched k id hid, h.schema⟩

/-! ### The frame of an operation -/

/-- What is recorded about an outcome. -/
def recorded {α : Type} : Except Refusal (Accepted α) → OpContext × Status × AuditKind
  | .error refusal => (refusal.context, refusal.status, refusal.kind)
  | .ok accepted => (accepted.context, {}, accepted.kind)

/-- What the caller is told, given what the store answered. -/
def answered {α : Type} (outcome : Except Refusal (Accepted α)) : Check → Except Failure α
  | .error status => .error (.persistence status)
  | .ok () =>
    match outcome with
    | .error refusal => .error (.refused refusal.status)
    | .ok accepted => .ok accepted.result

/-- An operation runs its body, records the outcome and commits. -/
theorem operation_eq [DurableStore σ] {α : Type} (im : Impl σ) (clock : Clock) (body : Body σ α) :
    im.operation clock body =
      let r := body im.beginOp
      let o := recorded r.2
      let c := (r.1.settle clock o.1 o.2.1 o.2.2).commit
      (c.1, answered r.2 c.2) := by
  simp only [operation, finalize_eq]
  split
  · rename_i im' refusal hb
    simp only [hb, recorded, answered]
    cases (im'.settle clock refusal.context refusal.status refusal.kind).commit.2 <;> rfl
  · rename_i im' accepted hb
    rw [hb]
    simp only [recorded]
    cases (im'.settle clock accepted.context {} accepted.kind).commit.2 <;> rfl

end Impl

end AcceleratorVirtualization
