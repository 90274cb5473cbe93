import AcceleratorVirtualization.Lib.Leasing
import AcceleratorVirtualization.Invariants.TrackedOperations

/-!
# The book of leases of a state

Virtual accelerators are the seats of a book, their tenants the owners, and the attachment
counters of the virtual accelerators, the tenants and the runtime the three counts. The view
keeps the life cycle, the generations and the binding of a virtual accelerator as its phase; most
helpers of the runtime leave it alone, the others are changes of the library.
-/

namespace AcceleratorVirtualization

open VirtualizationState Leasing

/-! ### The view -/

/-- What a lease depends on, and what a life-cycle step may change besides. -/
@[ext]
structure Phase where
  ownerGeneration : Generation
  state : VirtualLifecycleState
  generation : Generation
  contract : ResourceContract
  assignment : BackingAssignmentId
  backing : BackingId
  backingGeneration : Generation

/-- The generations a lease is bound to. -/
@[ext]
structure Stamp where
  virtualGeneration : Generation
  backingGeneration : Generation
  tenantGeneration : Generation
  policyGeneration : Generation
  epoch : Generation

/-- What a virtual accelerator is to the book of leases: its owner, the place it stands at, its
count and its list. -/
def VirtualAcceleratorRecord.toSeat (v : VirtualAcceleratorRecord) : Seat ℕ ℕ Phase :=
  ⟨v.owner, ⟨v.ownerGeneration, v.state, v.generation, v.contract, v.assignment, v.backing,
    v.backingGeneration⟩, v.activeAttachments, v.leases⟩

/-- What a lease is to the book: whom and what it names, the generations it was stamped with, and
whether it is live. -/
def LeaseRecord.toLease (l : LeaseRecord) : Lease ℕ ℕ Stamp :=
  ⟨l.virtualId, l.tenant, ⟨l.virtualGeneration, l.backingGeneration, l.tenantGeneration,
    l.policyGeneration, l.epoch⟩, leaseStateIsLive l.state⟩

/-- Leases are used in the phases that allow them; a fenced or retired virtual accelerator has
none in use; a lease is bound to the generations of its virtual accelerator and of the runtime. -/
def leaseRules : Rules Phase Stamp (Generation × Generation) where
  occupied φ := lifecycleAllowsLeases φ.state = true
  vacant φ := φ.state = .fenced ∨ φ.state = .retired
  stamp φ a := ⟨φ.generation, φ.backingGeneration, φ.ownerGeneration, a.1, a.2⟩

/-- Who uses what, and how often it is counted. -/
def VirtualizationState.book (s : VirtualizationState) :
    Book ℕ ℕ ℕ Phase Stamp (Generation × Generation) where
  seat id := s.virtuals[id]?.map (·.toSeat)
  lease id := s.leases[id]?.map (·.toLease)
  account id := s.tenants[id]?.elim 0 (·.activeAttachments)
  total := s.accounting.attachmentsActive
  era := (s.policyGeneration, s.epoch)

namespace Impl

variable {σ : Type} (im : Impl σ)

/-- The book of the state of a runtime. -/
def book : Book ℕ ℕ ℕ Phase Stamp (Generation × Generation) := im.state.book

/-! ### Changes of the view -/

@[simp]
theorem book_touch (k : RecordKind) (id : ℕ) : (im.touch k id).book = im.book := rfl

@[simp]
theorem book_takeId : im.takeId.book = im.book := rfl

@[simp]
theorem book_touchHeader : im.touchHeader.book = im.book := rfl

@[simp]
theorem book_beginOp : im.beginOp.book = im.book := rfl

/-- A counter of its own. -/
theorem book_account {f : AccountingCounters → AccountingCounters}
    (h : ∀ a, (f a).attachmentsActive = a.attachmentsActive) : (im.account f).book = im.book := by
  simp only [book, VirtualizationState.book, account, h]

@[simp]
theorem book_modify_physical {id : ℕ} {f : PhysicalDeviceRecord → PhysicalDeviceRecord} :
    (im.modify .physical id f).book = im.book := rfl

@[simp]
theorem book_modify_backing {id : ℕ} {f : BackingRecord → BackingRecord} :
    (im.modify .backing id f).book = im.book := rfl

@[simp]
theorem book_modify_assignment {id : ℕ} {f : BackingAssignment → BackingAssignment} :
    (im.modify .assignment id f).book = im.book := rfl

@[simp]
theorem book_modify_migration {id : ℕ} {f : MigrationRecord → MigrationRecord} :
    (im.modify .migration id f).book = im.book := rfl

@[simp]
theorem book_put_assignment {id : ℕ} {a : BackingAssignment} :
    (im.put .assignment id a).book = im.book := rfl

@[simp]
theorem book_put_migration {id : ℕ} {m : MigrationRecord} :
    (im.put .migration id m).book = im.book := rfl

@[simp]
theorem book_put_evidence {id : ℕ} {e : EvidenceRecord} :
    (im.put .evidence id e).book = im.book := rfl

@[simp]
theorem book_emplace_physical {id : ℕ} {p : PhysicalDeviceRecord} :
    (im.emplace .physical id p).book = im.book := rfl

@[simp]
theorem book_emplace_backing {id : ℕ} {b : BackingRecord} :
    (im.emplace .backing id b).book = im.book := rfl

variable {im}

theorem seat_of_virtual {id : ℕ} {v : VirtualAcceleratorRecord}
    (h : im.state.virtuals[id]? = some v) : im.book.seat id = some v.toSeat := by
  simp [book, VirtualizationState.book, h]

theorem virtual_of_seat {id : ℕ} {q : Seat ℕ ℕ Phase} (h : im.book.seat id = some q) :
    ∃ v, im.state.virtuals[id]? = some v ∧ v.toSeat = q :=
  Option.map_eq_some_iff.mp h

theorem lease_of_lease {id : ℕ} {l : LeaseRecord} (h : im.state.leases[id]? = some l) :
    im.book.lease id = some l.toLease := by
  simp [book, VirtualizationState.book, h]

/-- Looking up after a change of one record. -/
private theorem map_modify_of_some {α β : Type} {map : IdMap α} {id : ℕ} {r : α}
    (h : map[id]? = some r) (f : α → α) (view : α → β) :
    (fun id' : ℕ => (map.modify id f)[id']?.map view) =
      Function.update (fun id' : ℕ => map[id']?.map view) id (some (view (f r))) := by
  funext id'
  rw [Std.ExtTreeMap.getElem?_modify]
  by_cases hid : id' = id
  · subst hid
    simp [h]
  · rw [Function.update_of_ne hid, if_neg (by simpa using Ne.symm hid)]

private theorem modify_of_none {α : Type} {map : IdMap α} {id : ℕ} (h : map[id]? = none)
    (f : α → α) : map.modify id f = map := by
  refine Std.ExtTreeMap.ext_getElem? fun id' => ?_
  rw [Std.ExtTreeMap.getElem?_modify]
  split
  · rename_i hid
    rw [Nat.compare_eq_eq.mp hid] at h
    rw [Nat.compare_eq_eq.mp hid, h]
    rfl
  · rfl

/-- A change of a virtual accelerator. -/
theorem book_modify_virtual {i : Impl σ} {id : ℕ} {v : VirtualAcceleratorRecord}
    (h : i.state.virtuals[id]? = some v)
    (f : VirtualAcceleratorRecord → VirtualAcceleratorRecord) :
    (i.modify .virtual id f).book = i.book.assign id (f v).toSeat := by
  simp only [book, VirtualizationState.book, Impl.modify, VirtualizationState.modify, setEntities,
    entities, Book.assign]
  rw [map_modify_of_some h f]

/-- A change of a virtual accelerator, as the view sees it. -/
theorem book_modify_seat {i : Impl σ} {id : ℕ} {q : Seat ℕ ℕ Phase}
    {f : VirtualAcceleratorRecord → VirtualAcceleratorRecord} {g : Seat ℕ ℕ Phase → Seat ℕ ℕ Phase}
    (hq : i.book.seat id = some q) (h : ∀ v, (f v).toSeat = g v.toSeat) :
    (i.modify .virtual id f).book = i.book.assign id (g q) := by
  obtain ⟨v, hv, rfl⟩ := virtual_of_seat hq
  rw [book_modify_virtual hv, h]

/-- A change of a virtual accelerator that the view does not see. -/
theorem book_modify_virtual_same {id : ℕ} {f : VirtualAcceleratorRecord → VirtualAcceleratorRecord}
    (h : ∀ v, im.state.virtuals[id]? = some v → (f v).toSeat = v.toSeat) :
    (im.modify .virtual id f).book = im.book := by
  simp only [book, VirtualizationState.book, Impl.modify, VirtualizationState.modify, setEntities,
    entities]
  congr 1
  funext id'
  rw [Std.ExtTreeMap.getElem?_modify]
  split
  · rename_i hid
    rw [← Nat.compare_eq_eq.mp hid]
    cases hv : im.state.virtuals[id]? with
    | none => rfl
    | some v => simp [h v hv]
  · rfl

/-- A change of a lease. -/
theorem book_modify_lease {i : Impl σ} {id : ℕ} {l : LeaseRecord} (h : i.state.leases[id]? = some l)
    (f : LeaseRecord → LeaseRecord) :
    (i.modify .lease id f).book = i.book.issue id (f l).toLease := by
  simp only [book, VirtualizationState.book, Impl.modify, VirtualizationState.modify, setEntities,
    entities, Book.issue]
  rw [map_modify_of_some h f]

/-- A change of a lease that the view does not see. -/
theorem book_modify_lease_same {id : ℕ} {f : LeaseRecord → LeaseRecord}
    (h : ∀ l, (f l).toLease = l.toLease) : (im.modify .lease id f).book = im.book := by
  simp only [book, VirtualizationState.book, Impl.modify, VirtualizationState.modify, setEntities,
    entities]
  congr 1
  funext id'
  rw [Std.ExtTreeMap.getElem?_modify]
  split
  · rename_i hid
    rw [← Nat.compare_eq_eq.mp hid]
    cases im.state.leases[id]? with
    | none => rfl
    | some l => simp [h]
  · rfl

/-- A change of a tenant. -/
theorem book_modify_tenant {id : ℕ} (f : TenantRecord → TenantRecord) :
    (im.modify .tenant id f).book = im.book.credit id
      (im.state.tenants[id]?.elim 0 fun t => (f t).activeAttachments) := by
  simp only [book, VirtualizationState.book, Impl.modify, VirtualizationState.modify, setEntities,
    entities, Book.credit]
  congr 1
  funext id'
  rw [Std.ExtTreeMap.getElem?_modify]
  by_cases hid : id' = id
  · subst hid
    cases ht : im.state.tenants[id']? <;> simp
  · rw [Function.update_of_ne hid, if_neg (by simpa using Ne.symm hid)]

/-- A change of a tenant that does not touch its count. -/
theorem book_modify_tenant_same {id : ℕ} {f : TenantRecord → TenantRecord}
    (h : ∀ t, (f t).activeAttachments = t.activeAttachments) :
    (im.modify .tenant id f).book = im.book := by
  rw [book_modify_tenant, Book.credit]
  simp only [h]
  congr 1
  exact Function.update_eq_self id im.book.account

private theorem map_insert_view {α β : Type} (map : IdMap α) (id : ℕ) (r : α) (view : α → β) :
    (fun id' : ℕ => (map.insert id r)[id']?.map view) =
      Function.update (fun id' : ℕ => map[id']?.map view) id (some (view r)) := by
  funext id'
  rw [Std.ExtTreeMap.getElem?_insert]
  by_cases hid : id' = id
  · subst hid
    simp
  · rw [Function.update_of_ne hid, if_neg (by simpa using Ne.symm hid)]

theorem book_put_virtual {id : ℕ} {v : VirtualAcceleratorRecord} :
    (im.put .virtual id v).book = im.book.assign id v.toSeat := by
  simp only [book, VirtualizationState.book, Impl.put, VirtualizationState.put, setEntities,
    entities, Book.assign]
  rw [map_insert_view]

theorem book_put_lease {id : ℕ} {l : LeaseRecord} :
    (im.put .lease id l).book = im.book.issue id l.toLease := by
  simp only [book, VirtualizationState.book, Impl.put, VirtualizationState.put, setEntities,
    entities, Book.issue]
  rw [map_insert_view]

/-- A tenant that uses nothing is entered. -/
theorem book_put_tenant {id : ℕ} {t : TenantRecord} (hid : im.state.tenants[id]? = none)
    (ht : t.activeAttachments = 0) : (im.put .tenant id t).book = im.book := by
  simp only [book, VirtualizationState.book, Impl.put, VirtualizationState.put, setEntities,
    entities]
  congr 1
  funext id'
  rw [Std.ExtTreeMap.getElem?_insert]
  split
  · rename_i h
    rw [← Nat.compare_eq_eq.mp h, hid]
    exact ht
  · rfl

/-- So does one that is made up where there is none. -/
theorem book_emplace_tenant {id : ℕ} : (im.emplace .tenant id {}).book = im.book := by
  simp only [book, VirtualizationState.book, Impl.emplace, setEntities, entities]
  congr 1
  funext id'
  rw [Std.ExtTreeMap.getElem?_insertIfNew]
  split
  · rename_i h
    rw [← Nat.compare_eq_eq.mp h.1, Std.ExtTreeMap.getElem?_eq_none h.2]
    rfl
  · rfl

/-! ### Leases -/

theorem live_eq (im : Impl σ) (id : LeaseId) : im.book.live id =
    (im.state.leases[id]?.map fun l => leaseStateIsLive l.state).getD false := by
  simp only [Book.live, book, VirtualizationState.book]
  cases im.state.leases[id]? <;> rfl

@[simp]
theorem book_fenceLease (reason : Text) (now : UnixMicros) (id : LeaseId) :
    (im.fenceLease reason now id).book = im.book.stop [id] := by
  unfold fenceLease
  split
  · rename_i hnone
    refine (Book.stop_of_not_live fun l hl => ?_).symm
    rw [List.mem_singleton.mp hl, live_eq, hnone]
    rfl
  · rename_i l hl
    split
    · rw [book_modify_lease (i := im.touchLease id) hl]
      refine Book.ext rfl (funext fun id' => ?_) rfl rfl rfl
      simp only [Book.issue, Book.stop]
      by_cases hid : id' = id
      · subst hid
        rw [Function.update_self, if_pos (List.mem_singleton_self _), lease_of_lease hl]
        rfl
      · rw [Function.update_of_ne hid, if_neg (by simpa using hid)]
        rfl
    · rename_i hnot
      refine (Book.stop_of_not_live fun l' hl' => ?_).symm
      rw [List.mem_singleton.mp hl', live_eq, hl]
      simpa using hnot

theorem book_fenceEach (reason : Text) (now : UnixMicros) (ids : List LeaseId) (im : Impl σ) :
    (ids.foldl (fun im lease => im.fenceLease reason now lease) im).book = im.book.stop ids := by
  induction ids generalizing im with
  | nil => rw [List.foldl_nil, Book.stop_nil]
  | cons id ids ih => rw [List.foldl_cons, ih, book_fenceLease, Book.stop_stop]

theorem inUse_eq_liveLeases {ids : List LeaseId} (h : ids.Nodup) :
    im.book.inUse ids = liveLeases im.state.leases ids := by
  unfold Book.inUse liveLeases
  rw [h.dedup]
  congr 2
  funext id
  exact live_eq im id

theorem virtuals_fenceEach (reason : Text) (now : UnixMicros) (ids : List LeaseId) (im : Impl σ) :
    (ids.foldl (fun im lease => im.fenceLease reason now lease) im).state.virtuals =
        im.state.virtuals := by
  refine foldl_unchanged (f := fun im : Impl σ => im.state.virtuals) (fun im id => ?_) ids im
  unfold fenceLease
  split
  · rfl
  · split <;> rfl

theorem tenants_fenceEach (reason : Text) (now : UnixMicros) (ids : List LeaseId) (im : Impl σ) :
    (ids.foldl (fun im lease => im.fenceLease reason now lease) im).state.tenants =
        im.state.tenants := by
  refine foldl_unchanged (f := fun im : Impl σ => im.state.tenants) (fun im id => ?_) ids im
  unfold fenceLease
  split
  · rfl
  · split <;> rfl

theorem attachmentsActive_account (f : AccountingCounters → AccountingCounters) {n : ℕ}
    (h : ∀ a, (f a).attachmentsActive = a.attachmentsActive - n) :
    (im.account f).book = im.book.bill (im.book.total - n) := by
  simp only [book, VirtualizationState.book, account, h, Book.bill]

/-- Fencing the leases of a virtual accelerator shuts its seat. -/
theorem book_fenceLeases {id : VirtualAcceleratorId} {v : VirtualAcceleratorRecord}
    (hv : im.state.virtuals[id]? = some v) (hn : v.leases.Nodup) (reason : Text)
    (now : UnixMicros) :
    (im.fenceLeases id reason now).book = im.book.shut id v.toSeat := by
  have hlive : im.book.inUse v.toSeat.leases = liveLeases im.state.leases v.leases :=
    inUse_eq_liveLeases hn
  simp only [fenceLeases, hv]
  by_cases h0 : liveLeases im.state.leases v.leases = 0
  · -- nothing is in use, and stopping it changes nothing
    rw [if_pos h0, book_fenceEach, Book.shut_of_not_inUse (seat_of_virtual hv) (hlive.trans h0)]
    exact Book.stop_of_not_live (Book.inUse_eq_zero.mp (hlive.trans h0))
  · rw [if_neg h0, book_touchHeader, attachmentsActive_account _ (n := liveLeases im.state.leases
      v.leases) fun _ => rfl]
    generalize hfold : v.leases.foldl (fun im lease => im.fenceLease reason now lease) im = im1
    have hbook : im1.book = im.book.stop v.leases := by
      rw [← hfold]
      exact book_fenceEach reason now v.leases im
    have hvirtuals : im1.state.virtuals[id]? = some v := by
      rw [← hfold, virtuals_fenceEach]
      exact hv
    have htenants : im1.state.tenants = im.state.tenants := by
      rw [← hfold]
      exact tenants_fenceEach reason now v.leases im
    have hmodified := book_modify_virtual (i := im1.touchVirtual v.id) hvirtuals
      fun record => { record with activeAttachments := 0 }
    have htenants2 : ((im1.touchVirtual v.id).modify .virtual id fun record =>
        { record with activeAttachments := 0 }).state.tenants = im.state.tenants := htenants
    generalize ((im1.touchVirtual v.id).modify .virtual id fun record =>
        { record with activeAttachments := 0 } : Impl σ) = im2 at hmodified htenants2 ⊢
    have hbook2 : im2.book =
        (im.book.stop v.leases).assign id { v.toSeat with active := 0 } := by
      rw [hmodified, show (im1.touchVirtual v.id).book = im1.book from rfl, hbook]
      rfl
    rw [htenants2]
    simp only [Book.shut, hlive, if_neg h0]
    cases ht : im.state.tenants[v.owner]? with
    | none =>
      have haccount : im.book.account v.owner = 0 := by
        simp [book, VirtualizationState.book, ht]
      simp only [hbook2]
      refine Book.ext rfl rfl ?_ rfl rfl
      change im.book.account = Function.update im.book.account v.owner (im.book.account v.owner - _)
      rw [haccount, Nat.zero_sub, ← haccount, Function.update_eq_self]
    | some t =>
      have haccount : im.book.account v.owner = t.activeAttachments := by
        simp [book, VirtualizationState.book, ht]
      dsimp only
      rw [book_modify_tenant]
      have ht2 : (im2.touchTenant v.owner).state.tenants[v.owner]? = some t := by
        rw [← ht, ← htenants2]
        rfl
      rw [ht2, show (im2.touchTenant v.owner).book = im2.book from rfl, hbook2]
      refine Book.ext rfl rfl ?_ rfl rfl
      change Function.update im.book.account v.owner (t.activeAttachments - _) =
        Function.update im.book.account v.owner (im.book.account v.owner - _)
      rw [haccount]

/-- The same, as the view sees the virtual accelerator. -/
theorem book_fenceLeases_seat {id : VirtualAcceleratorId} {q : Seat ℕ ℕ Phase}
    (hq : im.book.seat id = some q) (hn : q.leases.Nodup) (reason : Text) (now : UnixMicros) :
    (im.fenceLeases id reason now).book = im.book.shut id q := by
  obtain ⟨v, hv, rfl⟩ := virtual_of_seat hq
  exact book_fenceLeases hv hn reason now

/-! ### Life cycle -/

/-- The stamp with another generation of the virtual accelerator. -/
def stampAt (generation : Generation) (e : Stamp) : Stamp :=
  { e with virtualGeneration := generation }

@[simp]
theorem book_carryLease (generation : Generation) (id : LeaseId) :
    (im.carryLease generation id).book = im.book.restamp [id] (stampAt generation) := by
  have hsame : (∀ l, im.state.leases[id]? = some l → leaseStateIsLive l.state = false) →
      im.book.restamp [id] (stampAt generation) = im.book := by
    intro h
    refine Book.ext rfl (funext fun id' => ?_) rfl rfl rfl
    simp only [Book.restamp]
    split
    · rename_i hid
      rw [List.mem_singleton.mp hid]
      cases hl : im.state.leases[id]? with
      | none => simp [book, VirtualizationState.book, hl]
      | some l => simp [lease_of_lease hl, LeaseRecord.toLease, h l hl]
    · rfl
  unfold carryLease
  split
  · rename_i hnone
    exact (hsame fun l hl => by rw [hnone] at hl; cases hl).symm
  · rename_i l hl
    split
    · rename_i hlive
      rw [book_modify_lease (i := im.touchLease id) hl]
      refine Book.ext rfl (funext fun id' => ?_) rfl rfl rfl
      simp only [Book.issue, Book.restamp]
      by_cases hid : id' = id
      · subst hid
        rw [Function.update_self, if_pos (List.mem_singleton_self _), lease_of_lease hl]
        simp only [LeaseRecord.toLease, Option.map_some, hlive, if_true]
        rfl
      · rw [Function.update_of_ne hid, if_neg (by simpa using hid)]
        rfl
    · rename_i hnot
      refine (hsame fun l' hl' => ?_).symm
      rw [hl, Option.some.injEq] at hl'
      rw [← hl']
      simpa using hnot

theorem book_carryEach (generation : Generation) (ids : List LeaseId) (im : Impl σ) :
    (ids.foldl (fun im lease => im.carryLease generation lease) im).book =
      im.book.restamp ids (stampAt generation) := by
  induction ids generalizing im with
  | nil => rw [List.foldl_nil, Book.restamp_nil]
  | cons id ids ih =>
    have hg : ∀ e, stampAt generation (stampAt generation e) = stampAt generation e := fun _ => rfl
    rw [List.foldl_cons, ih, book_carryLease, Book.restamp_restamp hg]

/-- A virtual accelerator after a step of its life cycle. -/
def moved (q : Seat ℕ ℕ Phase) (target : VirtualLifecycleState) : Seat ℕ ℕ Phase :=
  { q with phase := { q.phase with state := target, generation := q.phase.generation + 1 } }

/-- A transition is refused, or it moves the virtual accelerator along an edge; leases are carried
along where both ends allow them. -/
theorem transition_cases {c : Clock} {id : VirtualAcceleratorId}
    {v : VirtualAcceleratorRecord} (hv : im.state.virtuals[id]? = some v)
    (target : VirtualLifecycleState) (reason : Text) :
    (∃ status, im.transition c id target reason = (im, .error status) ∧
      isLegalTransition v.state target = false) ∨
    (im.transition c id target reason).2 = .ok () ∧ isLegalTransition v.state target = true ∧
      (im.transition c id target reason).1.book =
        (if lifecycleAllowsLeases v.state && lifecycleAllowsLeases target then
          im.book.restamp v.leases (stampAt (v.generation + 1)) else im.book).assign id
          (moved v.toSeat target) := by
  unfold transition
  simp only [hv]
  cases hc : checkTransition v.state target with
  | error legal =>
    refine .inl ⟨_, rfl, ?_⟩
    rw [← Bool.not_eq_true, ← checkTransition_eq_ok, hc]
    simp
  | ok u =>
    refine .inr ⟨rfl, checkTransition_eq_ok.mp hc, ?_⟩
    have hmodified := book_modify_virtual (i := im.touchVirtual v.id) hv fun record =>
      { record with
        state := target
        stateGeneration := record.stateGeneration + 1
        stateReason := reason
        generation := record.generation + 1
        updatedAt := c.transition id }
    dsimp only
    split
    · rw [book_carryEach, hmodified]
      rfl
    · exact hmodified

/-- The same for a step to a state without leases in use, as the view sees it. -/
theorem transition_unoccupied {c : Clock} {id : VirtualAcceleratorId} {q : Seat ℕ ℕ Phase}
    (hq : im.book.seat id = some q) (target : VirtualLifecycleState)
    (htarget : lifecycleAllowsLeases target = false) (reason : Text) :
    (∃ status, im.transition c id target reason = (im, .error status) ∧
      isLegalTransition q.phase.state target = false) ∨
    (im.transition c id target reason).2 = .ok () ∧
      isLegalTransition q.phase.state target = true ∧
      (im.transition c id target reason).1.book = im.book.assign id (moved q target) := by
  obtain ⟨v, hv, rfl⟩ := virtual_of_seat hq
  have h := transition_cases (c := c) hv target reason
  rwa [htarget, Bool.and_false, if_neg Bool.false_ne_true] at h

/-- Rebuilding what a virtual accelerator shows leaves the book of leases as it is. -/
@[simp]
theorem book_rebuildProjection (im : Impl σ) (id : VirtualAcceleratorId) :
    (im.rebuildProjection id).book = im.book :=
  book_modify_virtual_same fun _ _ => rfl

/-- Revoking an assignment leaves the book of leases as it is. -/
@[simp]
theorem book_revokeAssignment (im : Impl σ) (id : BackingAssignmentId) (reason : Text)
    (now : UnixMicros) : (im.revokeAssignment id reason now).book = im.book := by
  unfold revokeAssignment
  split
  · rfl
  · split <;> rfl

/-- Releasing a backing leaves the book of leases as it is. -/
@[simp]
theorem book_releaseBacking (im : Impl σ) (id : BackingId) :
    (im.releaseBacking id).book = im.book := by
  unfold releaseBacking
  split <;> rfl

/-- The derived counters include the total. -/
theorem book_recomputeDerivedAccounting (im : Impl σ) :
    im.recomputeDerivedAccounting.book =
      im.book.bill (im.state.virtuals.values.map (·.activeAttachments)).sum := rfl

end Impl

/-! ### Sums over a map -/

theorem values_eq_map_toList {α : Type} (map : IdMap α) : map.values = map.toList.map Prod.snd := by
  obtain ⟨inner⟩ := map
  induction inner using Std.ExtDTreeMap.inductionOn with
  | mk m =>
    change m.inner.values = (Std.DTreeMap.Internal.Impl.Const.toList m.inner).map Prod.snd
    rw [Std.DTreeMap.Internal.Impl.values_eq_map_snd,
      Std.DTreeMap.Internal.Impl.Const.toList_eq_toListModel_map, List.map_map]
    rfl

/-- The values of a map, summed up by their keys. -/
theorem sum_values_eq_finsum {α : Type} (map : IdMap α) (g : α → ℕ) :
    (map.values.map g).sum = ∑ᶠ id : ℕ, map[id]?.elim 0 g := by
  have hnodup : map.keys.Nodup := Std.ExtTreeMap.nodup_keys
  have hsupport : (Function.support fun id : ℕ => map[id]?.elim 0 g) ⊆ ↑map.keys.toFinset := by
    intro id hid
    rw [List.coe_toFinset, Set.mem_ofPred_eq, Std.ExtTreeMap.mem_keys]
    by_contra hnot
    exact hid (by simp [Std.ExtTreeMap.getElem?_eq_none hnot])
  have hvalues : map.values.map g = map.keys.map fun id => map[id]?.elim 0 g := by
    rw [values_eq_map_toList, ← Std.ExtTreeMap.map_fst_toList_eq_keys, List.map_map, List.map_map]
    refine List.map_congr_left fun entry hentry => ?_
    simp [Std.ExtTreeMap.mem_toList_iff_getElem?_eq_some.mp hentry]
  rw [finsum_eq_sum_of_support_subset _ hsupport, hvalues, List.sum_toFinset _ hnodup]

end AcceleratorVirtualization
