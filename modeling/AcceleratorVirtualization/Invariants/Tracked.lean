import Mathlib.Data.Set.Insert
import AcceleratorVirtualization.Invariants.Accepted

/-!
# Changes are tracked

An operation touches a record before it changes it: the undo log then holds the record the
operation found, the change set lists its identity, and every record that was not touched is
still the one the operation found. `Tracks` says this of a runtime in the middle of an
operation, together with what makes identities trustworthy: every record is stored under the
identity it carries, and only issued identities are in use. Each step of an operation has a
lemma that keeps it; the steps of `Runtime.Helpers` are at the end.
-/

namespace AcceleratorVirtualization

namespace VirtualizationState

/-- Every record is stored under the identity it carries, and only issued identities are in
use. -/
structure WellKeyed (s : VirtualizationState) : Prop where
  keyed : ∀ k id r, s.find k id = some r → k.idOf r = id
  issued : ∀ k id r, s.find k id = some r → 0 < id ∧ id < s.nextSequence
  started : 0 < s.nextSequence

theorem WellKeyed.fresh {s : VirtualizationState} (h : s.WellKeyed) (k : RecordKind) {id : ℕ}
    (hid : s.nextSequence ≤ id) : s.find k id = none := by
  by_contra hne
  obtain ⟨r, hr⟩ := Option.ne_none_iff_exists'.mp hne
  exact absurd (h.issued k id r hr).2 (Nat.not_lt.mpr hid)

theorem WellKeyed.zero {s : VirtualizationState} (h : s.WellKeyed) (k : RecordKind) :
    s.find k 0 = none := by
  by_contra hne
  obtain ⟨r, hr⟩ := Option.ne_none_iff_exists'.mp hne
  exact absurd (h.issued k 0 r hr).1 (Nat.lt_irrefl 0)

/-- The same records, and perhaps more identities used up. -/
theorem WellKeyed.advance {s t : VirtualizationState} (h : s.WellKeyed)
    (he : t.entities = s.entities) (hn : s.nextSequence ≤ t.nextSequence) : t.WellKeyed := by
  have hfind : ∀ k id, t.find k id = s.find k id := fun k id => by rw [find, he, find]
  refine ⟨fun k id r hr => h.keyed k id r (hfind k id ▸ hr), fun k id r hr => ?_,
    Nat.lt_of_lt_of_le h.started hn⟩
  obtain ⟨h0, hlt⟩ := h.issued k id r (hfind k id ▸ hr)
  exact ⟨h0, Nat.lt_of_lt_of_le hlt hn⟩

/-- A change of one record that keeps its identity. -/
theorem WellKeyed.modify {s : VirtualizationState} (h : s.WellKeyed) (k : RecordKind) (id : ℕ)
    {f : k.Record → k.Record} (hf : ∀ r, k.idOf (f r) = k.idOf r) :
    (s.modify k id f).WellKeyed := by
  have hrec : ∀ k' id' r, (s.modify k id f).find k' id' = some r →
      ∃ r', s.find k' id' = some r' ∧ k'.idOf r = k'.idOf r' := by
    intro k' id' r hr
    by_cases hk : k' = k
    · subst hk
      rw [find_modify_self] at hr
      split at hr
      · rename_i hid
        obtain ⟨r', hr', rfl⟩ := Option.map_eq_some_iff.mp hr
        exact ⟨r', hid ▸ hr', hf r'⟩
      · exact ⟨r, hr, rfl⟩
    · rw [find_modify_of_ne _ _ hk] at hr
      exact ⟨r, hr, rfl⟩
  have hseq : (s.modify k id f).nextSequence = s.nextSequence := nextSequence_setEntities _ _ _
  refine ⟨fun k' id' r hr => ?_, fun k' id' r hr => ?_, hseq ▸ h.started⟩
  · obtain ⟨r', hr', hid⟩ := hrec k' id' r hr
    rw [hid]
    exact h.keyed k' id' r' hr'
  · obtain ⟨r', hr', -⟩ := hrec k' id' r hr
    rw [hseq]
    exact h.issued k' id' r' hr'

end VirtualizationState

open VirtualizationState

/-- What a tenant is, apart from what it owns and uses. -/
def TenantRecord.standing (t : TenantRecord) : TenantRecord :=
  { t with activeAttachments := 0, owned := [], updatedAt := 0 }

/-- The undo log of an operation that begins in a state. -/
def UndoLog.ofState (s : VirtualizationState) : UndoLog where
  header := true
  nextSequence := s.nextSequence
  epoch := s.epoch
  policy := s.policy
  policyGeneration := s.policyGeneration
  accounting := s.accounting
  auditSize := s.audit.length
  decisionSize := s.decisions.length
  requestSize := s.requests.length

namespace Impl

variable {σ : Type}

/-- Since the operation began, records were changed only after they were touched, and the
identities in `T` were touched. -/
structure Tracks (s : Impl σ) (T : Set (RecordKind × ℕ)) (im : Impl σ) :
    Prop where
  store : im.store = s.store
  options : im.options = s.options
  undo : im.undo = { UndoLog.ofState s.state with saved := im.undo.saved }
  saved : ∀ k id r, (im.undo.saved k)[id]? = some r → r = s.state.find k id
  untouched : ∀ k id, id ∉ im.undo.saved k → im.state.find k id = s.state.find k id
  listed : ∀ k id, id ∈ im.changes.ids k ↔ id ∈ im.undo.saved k
  touched : ∀ k id, (k, id) ∈ T → id ∈ im.undo.saved k
  kept : ∀ k id, (s.state.find k id).isSome → (im.state.find k id).isSome
  wellKeyed : im.state.WellKeyed
  advanced : s.state.nextSequence ≤ im.state.nextSequence
  schema : im.state.schema = s.state.schema
  epoch : im.state.epoch = s.state.epoch
  windows : im.state.audit = s.state.audit ∧ im.state.decisions = s.state.decisions ∧
    im.state.requests = s.state.requests
  unrecorded : im.changes.audit = [] ∧ im.changes.decisions = [] ∧ im.changes.requests = []

variable {T : Set (RecordKind × ℕ)} {s im : Impl σ}

/-- The touched identities are the ones something is saved for. -/
theorem mem_saved_touch {k k' : RecordKind} {id id' : ℕ} :
    id' ∈ (im.touch k id).undo.saved k' ↔ (k' = k ∧ id' = id) ∨ id' ∈ im.undo.saved k' := by
  by_cases hk : k' = k
  · subst hk
    simp only [Impl.touch, Function.update_self, true_and]
    split
    · grind
    · simp [Std.ExtTreeMap.mem_insert, eq_comm (a := id')]
  · simp [Impl.touch, hk]

namespace Tracks

theorem beginOp (h : im.state.WellKeyed) : Tracks im ∅ im.beginOp where
  store := rfl
  options := rfl
  undo := rfl
  saved k id r hr := by simp [Impl.beginOp] at hr
  untouched _ _ _ := rfl
  listed k id := by simp [Impl.beginOp]
  touched k id hT := by simp at hT
  kept _ _ hs := hs
  wellKeyed := h
  advanced := Nat.le_refl _
  schema := rfl
  epoch := rfl
  windows := ⟨rfl, rfl, rfl⟩
  unrecorded := ⟨rfl, rfl, rfl⟩

theorem mono {T' : Set (RecordKind × ℕ)} (h : Tracks s T im) (hT : T' ⊆ T) : Tracks s T' im :=
  { h with touched := fun k id ht => h.touched k id (hT ht) }

/-! ### Steps that change no record -/

theorem touchHeader (h : Tracks s T im) : Tracks s T im.touchHeader := { h with }

theorem account (h : Tracks s T im) (f : AccountingCounters → AccountingCounters) :
    Tracks s T (im.account f) :=
  { h with wellKeyed := ⟨h.wellKeyed.keyed, h.wellKeyed.issued, h.wellKeyed.started⟩ }

theorem takeId (h : Tracks s T im) : Tracks s T im.takeId :=
  { h with
    wellKeyed := ⟨h.wellKeyed.keyed,
      fun k id r hr => ⟨(h.wellKeyed.issued k id r hr).1,
        Nat.lt_succ_of_lt (h.wellKeyed.issued k id r hr).2⟩, Nat.succ_pos _⟩
    advanced := Nat.le_succ_of_le h.advanced }

theorem touch (h : Tracks s T im) (k : RecordKind) (id : ℕ) :
    Tracks s (insert (k, id) T) (im.touch k id) := by
  refine { h with undo := ?_, saved := ?_, untouched := ?_, listed := ?_, touched := ?_ }
  · rw [show (im.touch k id).undo =
      { im.undo with saved := (im.touch k id).undo.saved } from rfl, h.undo]
  · intro k' id' r hr
    by_cases hk : k' = k
    · subst hk
      by_cases hid : id ∈ im.undo.saved k'
      · simp only [Impl.touch, Function.update_self, hid, if_true] at hr
        exact h.saved k' id' r hr
      · simp only [Impl.touch, Function.update_self, hid, if_false,
          Std.ExtTreeMap.getElem?_insert, Nat.compare_eq_eq] at hr
        split at hr
        · rename_i heq
          subst heq
          rw [← Option.some.inj hr]
          exact h.untouched k' _ hid
        · exact h.saved k' id' r hr
    · simp only [Impl.touch, Function.update_of_ne hk] at hr
      exact h.saved k' id' r hr
  · intro k' id' hid'
    rw [mem_saved_touch, not_or] at hid'
    exact h.untouched k' id' hid'.2
  · intro k' id'
    rw [mem_saved_touch, ← h.listed]
    by_cases hk : k' = k
    · subst hk
      simp [Impl.touch, eq_comm (a := id')]
    · simp [Impl.touch, hk]
  · intro k' id' ht
    rw [mem_saved_touch]
    rcases ht with ht | ht
    · simp only [Prod.mk.injEq] at ht
      exact .inl ht
    · exact .inr (h.touched k' id' ht)

/-! ### Steps that change a record -/

/-- A step that changes the map of one kind, after what it changes was touched. -/
private theorem setEntities (h : Tracks s T im) (k : RecordKind) (m : IdMap k.Record) {id : ℕ}
    (ht : (k, id) ∈ T) (hm : ∀ id', id' ≠ id → m[id']? = im.state.find k id')
    (hkept : (im.state.find k id).isSome → m[id]?.isSome)
    (hid : ∀ r, m[id]? = some r → k.idOf r = id ∧ 0 < id ∧ id < im.state.nextSequence) :
    Tracks s T { im with state := im.state.setEntities k m } := by
  have hfind : ∀ k' id', (k', id') ≠ (k, id) →
      (im.state.setEntities k m).find k' id' = im.state.find k' id' := by
    intro k' id' hne
    by_cases hk : k' = k
    · subst hk
      rw [find_setEntities_self]
      exact hm id' fun hid' => hne (by rw [hid'])
    · exact find_setEntities_of_ne _ _ hk _ _
  have hrec : ∀ k' id' r, (im.state.setEntities k m).find k' id' = some r →
      k'.idOf r = id' ∧ 0 < id' ∧ id' < im.state.nextSequence := by
    intro k' id' r hr
    by_cases hne : (k', id') = (k, id)
    · cases hne
      rw [find_setEntities_self] at hr
      exact hid r hr
    · rw [hfind k' id' hne] at hr
      exact ⟨h.wellKeyed.keyed k' id' r hr, h.wellKeyed.issued k' id' r hr⟩
  refine { h with
    untouched := ?_, kept := ?_, wellKeyed := ⟨?_, ?_, ?_⟩, advanced := ?_, schema := ?_
    epoch := ?_, windows := ?_ }
  · intro k' id' hid'
    have hne : (k', id') ≠ (k, id) := by
      intro heq
      cases heq
      exact hid' (h.touched k id ht)
    rw [hfind k' id' hne]
    exact h.untouched k' id' hid'
  · intro k' id' hs
    by_cases hne : (k', id') = (k, id)
    · cases hne
      rw [find_setEntities_self]
      exact hkept (h.kept k id hs)
    · rw [hfind k' id' hne]
      exact h.kept k' id' hs
  · exact fun k' id' r hr => (hrec k' id' r hr).1
  · intro k' id' r hr
    rw [nextSequence_setEntities]
    exact (hrec k' id' r hr).2
  · rw [nextSequence_setEntities]
    exact h.wellKeyed.started
  · rw [nextSequence_setEntities]
    exact h.advanced
  · rw [← h.schema]
    cases k <;> rfl
  · rw [← h.epoch]
    cases k <;> rfl
  · rw [← h.windows.1, ← h.windows.2.1, ← h.windows.2.2]
    cases k <;> exact ⟨rfl, rfl, rfl⟩

theorem modify (h : Tracks s T im) (k : RecordKind) (id : ℕ) {f : k.Record → k.Record}
    (ht : (k, id) ∈ T) (hf : ∀ r, k.idOf (f r) = k.idOf r) :
    Tracks s T (im.modify k id f) := by
  refine h.setEntities k _ ht ?_ ?_ ?_
  · intro id' hid'
    rw [Std.ExtTreeMap.getElem?_modify, if_neg (by simpa using hid'.symm), find]
  · simp [find]
  · intro r hr
    simp only [Std.ExtTreeMap.getElem?_modify, Nat.compare_eq_eq, if_true,
      Option.map_eq_some_iff] at hr
    obtain ⟨r', hr', rfl⟩ := hr
    exact ⟨(hf r').trans (h.wellKeyed.keyed k id r' hr'), h.wellKeyed.issued k id r' hr'⟩

theorem put (h : Tracks s T im) (k : RecordKind) {id : ℕ} {r : k.Record}
    (ht : (k, id) ∈ T) (hr : k.idOf r = id) (h0 : 0 < id)
    (hlt : id < im.state.nextSequence) : Tracks s T (im.put k id r) := by
  refine h.setEntities k _ ht ?_ ?_ ?_
  · intro id' hid'
    rw [Std.ExtTreeMap.getElem?_insert, if_neg (by simpa using hid'.symm), find]
  · simp
  · intro r' hr'
    simp only [Std.ExtTreeMap.getElem?_insert_self, Option.some.injEq] at hr'
    subst hr'
    exact ⟨hr, h0, hlt⟩

theorem emplace (h : Tracks s T im) (k : RecordKind) {id : ℕ} {r : k.Record}
    (ht : (k, id) ∈ T) (hr : k.idOf r = id) (h0 : 0 < id)
    (hlt : id < im.state.nextSequence) : Tracks s T (im.emplace k id r) := by
  refine h.setEntities k _ ht ?_ ?_ ?_
  · intro id' hid'
    rw [Std.ExtTreeMap.getElem?_insertIfNew, if_neg (by simp [hid'.symm]), find]
  · intro hs
    rw [Std.ExtTreeMap.getElem?_insertIfNew]
    split
    · simp
    · exact hs
  · intro r' hr'
    rw [Std.ExtTreeMap.getElem?_insertIfNew] at hr'
    split at hr'
    · simp only [Option.some.injEq] at hr'
      subst hr'
      exact ⟨hr, h0, hlt⟩
    · exact ⟨h.wellKeyed.keyed k id r' hr', h.wellKeyed.issued k id r' hr'⟩

/-- Touch a record and then change it. -/
theorem touchModify (h : Tracks s T im) (k : RecordKind) (id : ℕ) {f : k.Record → k.Record}
    (hf : ∀ r, k.idOf (f r) = k.idOf r) :
    Tracks s (insert (k, id) T) ((im.touch k id).modify k id f) :=
  (h.touch k id).modify k id (Set.mem_insert _ _) hf

/-- The same, where it does not matter later that the record was touched. -/
theorem edit (h : Tracks s T im) (k : RecordKind) (id : ℕ) {f : k.Record → k.Record}
    (hf : ∀ r, k.idOf (f r) = k.idOf r) : Tracks s T ((im.touch k id).modify k id f) :=
  (h.touchModify k id hf).mono (Set.subset_insert _ _)

/-- What was saved was touched. -/
theorem ofSaved (h : Tracks s T im) {k : RecordKind} {id : ℕ} (hid : id ∈ im.undo.saved k) :
    Tracks s (insert (k, id) T) im :=
  { h with
    touched := by
      rintro k' id' (ht | ht)
      · cases ht
        exact hid
      · exact h.touched k' id' ht }

/-- A change of a record that was not touched is a change of the state the operation is taken
to have begun in. -/
theorem rebase (h : Tracks s T im) {k : RecordKind} {id : ℕ} (hid : id ∉ im.undo.saved k)
    {f : k.Record → k.Record} (hf : ∀ r, k.idOf (f r) = k.idOf r) :
    Tracks (s.modify k id f) T (im.modify k id f) := by
  -- the edit is made on both sides, and elsewhere nothing changes
  have hne : ∀ (im : Impl σ) k' id', (k', id') ≠ (k, id) →
      (im.modify k id f).state.find k' id' = im.state.find k' id' := by
    intro im k' id' hne
    by_cases hk : k' = k
    · subst hk
      rw [Impl.modify, find_modify_self, if_neg fun hc => hne (congrArg _ hc.symm)]
    · exact find_modify_of_ne _ _ hk _ _ _
  have hself : ∀ im : Impl σ, (im.modify k id f).state.find k id = (im.state.find k id).map f := by
    intro im
    rw [Impl.modify, find_modify_self, if_pos rfl]
  refine { h with
    undo := ?_, saved := ?_, untouched := ?_, kept := ?_, wellKeyed := h.wellKeyed.modify k id hf
    advanced := ?_, schema := ?_, epoch := ?_, windows := ?_ }
  · rw [show (im.modify k id f).undo = im.undo from rfl, h.undo]
    cases k <;> rfl
  · intro k' id' r hr
    rw [hne s k' id' ?_]
    · exact h.saved k' id' r hr
    · rintro ⟨⟩
      have hsome : ((im.undo.saved k)[id]?).isSome := Option.isSome_of_eq_some hr
      exact hid (Std.ExtTreeMap.isSome_getElem?_iff_mem.mp hsome)
  · intro k' id' hid'
    by_cases heq : (k', id') = (k, id)
    · cases heq
      rw [hself, hself, h.untouched k id hid]
    · rw [hne im k' id' heq, hne s k' id' heq, h.untouched k' id' hid']
  · intro k' id' hs
    by_cases heq : (k', id') = (k, id)
    · cases heq
      rw [hself, Option.isSome_map] at hs ⊢
      exact h.kept k id hs
    · rw [hne _ k' id' heq] at hs ⊢
      exact h.kept k' id' hs
  · simp only [Impl.modify, VirtualizationState.modify, nextSequence_setEntities]
    exact h.advanced
  · have hs := h.schema
    cases k <;> exact hs
  · have he := h.epoch
    cases k <;> exact he
  · have hw := h.windows
    cases k <;> exact hw

/-- A step for every entry of a list. -/
theorem foldl {α : Type} {step : Impl σ → α → Impl σ}
    (hstep : ∀ im a, Tracks s T im → Tracks s T (step im a)) (l : List α)
    (h : Tracks s T im) : Tracks s T (l.foldl step im) :=
  List.foldlRecOn l step h fun im h a _ => hstep im a h

/-- The record under an identity carries it. -/
theorem idOf_eq (h : Tracks s T im) {k : RecordKind} {id : ℕ} {r : k.Record}
    (hr : im.state.find k id = some r) : k.idOf r = id := h.wellKeyed.keyed k id r hr

/-! ### Shared steps -/

end Tracks

/-- What no step changes, a loop of them does not change. -/
theorem foldl_unchanged {α β γ : Type} {step : α → β → α} {f : α → γ}
    (hstep : ∀ a b, f (step a b) = f a) (l : List β) (a : α) :
    f (l.foldl step a) = f a :=
  List.foldlRecOn l step (motive := fun a' => f a' = f a) rfl
    fun a' h b _ => (hstep a' b).trans h

@[simp]
theorem nextSequence_modify (im : Impl σ) (k : RecordKind) (id : ℕ) (f : k.Record → k.Record) :
    (im.modify k id f).state.nextSequence = im.state.nextSequence :=
  nextSequence_setEntities _ _ _

@[simp]
theorem nextSequence_touch (im : Impl σ) (k : RecordKind) (id : ℕ) :
    (im.touch k id).state.nextSequence = im.state.nextSequence := rfl

theorem nextSequence_carryLease (im : Impl σ) (generation : Generation) (id : LeaseId) :
    (im.carryLease generation id).state.nextSequence = im.state.nextSequence := by
  unfold carryLease
  split
  · rfl
  · split
    · simp [touchLease]
    · rfl

@[simp]
theorem nextSequence_transition (im : Impl σ) (clock : Clock) (id : VirtualAcceleratorId)
    (target : VirtualLifecycleState) (reason : Text) :
    (im.transition clock id target reason).1.state.nextSequence = im.state.nextSequence := by
  unfold transition
  split
  · rfl
  · split
    · rfl
    · simp only
      split
      · rw [foldl_unchanged (f := fun im : Impl σ => im.state.nextSequence)
          (fun im lease => nextSequence_carryLease im _ lease)]
        simp [touchVirtual]
      · simp [touchVirtual]

namespace Tracks

theorem fenceLease (h : Tracks s T im) (reason : Text) (now : UnixMicros) (id : LeaseId) :
    Tracks s T (im.fenceLease reason now id) := by
  unfold Impl.fenceLease
  split
  · exact h
  · split
    · exact h.edit .lease id fun _ => rfl
    · exact h

theorem fenceLeases (h : Tracks s T im) (id : VirtualAcceleratorId) (reason : Text)
    (now : UnixMicros) : Tracks s T (im.fenceLeases id reason now) := by
  unfold Impl.fenceLeases
  split
  · exact h
  · rename_i record hr
    have hid : record.id = id := h.idOf_eq (k := .virtual) hr
    have hf := h.foldl (fun im lease h => h.fenceLease reason now lease) record.leases
    simp only
    split
    · exact hf
    · rw [hid]
      have hv := hf.edit .virtual id (f := fun record =>
        { record with activeAttachments := 0 }) fun _ => rfl
      refine touchHeader (account ?_ _)
      split
      · exact hv
      · exact hv.edit .tenant record.owner fun _ => rfl

theorem carryLease (h : Tracks s T im) (generation : Generation) (id : LeaseId) :
    Tracks s T (im.carryLease generation id) := by
  unfold Impl.carryLease
  split
  · exact h
  · split
    · exact h.edit .lease id fun _ => rfl
    · exact h

theorem transition (h : Tracks s T im) (clock : Clock) (id : VirtualAcceleratorId)
    (target : VirtualLifecycleState) (reason : Text) :
    Tracks s T (im.transition clock id target reason).1 := by
  unfold Impl.transition
  split
  · exact h
  · rename_i record hr
    have hid : record.id = id := h.idOf_eq (k := .virtual) hr
    split
    · exact h
    · rw [hid]
      simp only
      split
      · refine foldl (fun im lease h => h.carryLease _ lease) record.leases ?_
        exact h.edit .virtual id fun _ => rfl
      · exact h.edit .virtual id fun _ => rfl

theorem rebuildProjection (h : Tracks s T im) {id : VirtualAcceleratorId}
    (ht : (.virtual, id) ∈ T) :
    Tracks s T (im.rebuildProjection id) :=
  h.takeId.modify .virtual id ht fun _ => rfl

theorem recomputeDerivedAccounting (h : Tracks s T im) :
    Tracks s T im.recomputeDerivedAccounting :=
  (h.account _).touchHeader

theorem revokeAssignment (h : Tracks s T im) (id : BackingAssignmentId) (reason : Text)
    (now : UnixMicros) : Tracks s T (im.revokeAssignment id reason now) := by
  unfold Impl.revokeAssignment
  split
  · exact h
  · split
    · refine account (h.edit .assignment id ?_) _
      exact fun _ => rfl
    · exact h

theorem releaseBacking (h : Tracks s T im) (id : BackingId) :
    Tracks s T (im.releaseBacking id) := by
  unfold Impl.releaseBacking
  split
  · exact h
  · exact h.edit .backing id fun _ => rfl

end Tracks

end Impl

end AcceleratorVirtualization
