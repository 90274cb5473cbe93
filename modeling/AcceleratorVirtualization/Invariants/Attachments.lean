import AcceleratorVirtualization.Invariants.Consistency
import AcceleratorVirtualization.Invariants.Refusals

/-!
# Leases in use

What a run keeps of the leases: every lease in use is listed by its virtual accelerator and counted
by it, and what is in use has a lease and an authoritative binding. That a lease in use is bound to
the current generations holds along the runs whose operations are `steady`: a registration of
another device under the key of a known one, and a new contract, advance the generation of a virtual
accelerator and leave its leases behind.
-/

namespace AcceleratorVirtualization

open VirtualizationState Custody Leasing

/-! ### Leases and counts -/

/-- Whether a lease is there and in use. -/
def VirtualizationState.leaseInUse (s : VirtualizationState) (id : LeaseId) : Bool :=
  s.leases[id]?.any fun lease => leaseStateIsLive lease.state

/-- A virtual accelerator counts its leases in use; a lease in use is listed by its own virtual
accelerator only; and what is attached, active or draining has an authoritative assignment to its
backing and a lease in use. -/
structure VirtualizationState.Attachments (s : VirtualizationState) : Prop where
  counted : ∀ (id : VirtualAcceleratorId) (v : VirtualAcceleratorRecord),
    s.virtuals[id]? = some v → v.leases.Nodup ∧
      v.activeAttachments = (v.leases.filter s.leaseInUse).length
  listed : ∀ (id : LeaseId) (lease : LeaseRecord), s.leases[id]? = some lease →
    leaseStateIsLive lease.state = true →
    (∃ v : VirtualAcceleratorRecord, s.virtuals[lease.virtualId]? = some v ∧ id ∈ v.leases) ∧
      ∀ (x : VirtualAcceleratorId) (v : VirtualAcceleratorRecord), s.virtuals[x]? = some v →
        id ∈ v.leases → x = lease.virtualId
  backed : ∀ (id : VirtualAcceleratorId) (v : VirtualAcceleratorRecord),
    s.virtuals[id]? = some v → v.state = .attached ∨ v.state = .active ∨ v.state = .draining →
    (∃ (a : BackingAssignment) (b : BackingRecord), s.assignments[v.assignment]? = some a ∧
      a.authoritative = true ∧ a.backing = v.backing ∧ s.backings[v.backing]? = some b) ∧
      ∃ l ∈ v.leases, s.leaseInUse l = true

theorem VirtualizationState.live_book (s : VirtualizationState) (id : LeaseId) :
    s.book.live id = s.leaseInUse id := by
  simp only [Book.live, VirtualizationState.book, leaseInUse, Option.any_map]
  rfl

theorem VirtualizationState.inUse_book (s : VirtualizationState) (ids : List LeaseId) :
    s.book.inUse ids = (ids.filter s.leaseInUse).length := by
  rw [Book.inUse, show s.book.live = s.leaseInUse from funext s.live_book]

theorem lifecycleAllowsLeases_iff {state : VirtualLifecycleState} :
    lifecycleAllowsLeases state = true ↔ state = .attached ∨ state = .active ∨
      state = .draining := by
  cases state <;> simp [lifecycleAllowsLeases]

namespace VirtualizationState.Consistent

variable {s : VirtualizationState}

theorem seat_of_record {id : VirtualAcceleratorId} {v : VirtualAcceleratorRecord}
    (h : s.virtuals[id]? = some v) : s.book.seat id = some v.toSeat := by
  simp only [VirtualizationState.book, h, Option.map_some]

theorem record_of_seat {id : VirtualAcceleratorId} {q : Seat ℕ ℕ Phase}
    (h : s.book.seat id = some q) :
    ∃ v : VirtualAcceleratorRecord, s.virtuals[id]? = some v ∧ v.toSeat = q :=
  Option.map_eq_some_iff.mp h

theorem lease_of_record {id : LeaseId} {lease : LeaseRecord} (h : s.leases[id]? = some lease) :
    s.book.lease id = some lease.toLease := by
  simp only [VirtualizationState.book, h, Option.map_some]

/-- What is in use has an authoritative assignment to its backing. -/
theorem backed (h : s.Consistent) {id : VirtualAcceleratorId} {v : VirtualAcceleratorRecord}
    (hv : s.virtuals[id]? = some v) (hs : lifecycleAllowsLeases v.state = true) :
    ∃ (a : BackingAssignment) (b : BackingRecord), s.assignments[v.assignment]? = some a ∧
      a.authoritative = true ∧ a.backing = v.backing ∧ s.backings[v.backing]? = some b := by
  obtain ⟨r, hr, hauth, hparty⟩ := h.hosted id _ (seat_of_record hv) hs
  have hr' := hr
  simp only [VirtualizationState.ledger, Option.map_eq_some_iff] at hr'
  obtain ⟨a, ha, rfl⟩ := hr'
  have hpointed := h.coherent.pointed _ _ hr hauth
  simp only [hparty, VirtualizationState.ledger, hv, Option.map_some, Option.some.injEq] at hpointed
  have hbacking := (ref_eq_some.mp (congrArg Pointer.resource hpointed)).1
  have hplaced := h.coherent.placed _ _ hr
  simp only [VirtualizationState.ledger, Option.isSome_map] at hplaced
  obtain ⟨b, hb⟩ := Option.isSome_iff_exists.mp hplaced
  exact ⟨a, b, ha, hauth, hbacking.symm, hbacking ▸ hb⟩

theorem attachments (h : s.Consistent) : s.Attachments where
  counted id v hv := by
    have hq := seat_of_record hv
    exact ⟨h.leased.nodup id _ hq, (h.leased.counted id _ hq).trans (s.inUse_book _)⟩
  listed id lease hl hlive := by
    have hl' := lease_of_record hl
    obtain ⟨q, hq, hmem⟩ := h.leased.listed id _ hl'
    obtain ⟨v, hv, rfl⟩ := record_of_seat hq
    exact ⟨⟨v, hv, hmem⟩, fun x w hw hx => (h.leased.seat_eq (seat_of_record hw) hx hl').symm⟩
  backed id v hv hs := by
    have hocc := lifecycleAllowsLeases_iff.mpr hs
    refine ⟨h.backed hv hocc, ?_⟩
    have hq := seat_of_record hv
    have hcount := (h.leased.counted id _ hq).trans (s.inUse_book _)
    have hpos : 0 < (v.leases.filter s.leaseInUse).length :=
      (h.leased.occupied id _ hq hocc).trans_eq hcount
    obtain ⟨l, hl⟩ := List.exists_mem_of_length_pos hpos
    exact ⟨l, (List.mem_filter.mp hl).1, (List.mem_filter.mp hl).2⟩

end VirtualizationState.Consistent

/-- In every state a run reaches, leases in use are listed and counted, and what is in use is
backed and leased. -/
theorem attachments_of_run {options : RuntimeOptions} {stored : Bool} {events : List Event}
    {im : Impl Disk} (h : (Impl.initial options stored).run events = some im) :
    im.state.Attachments :=
  (Impl.consistent_of_run h).state.holds.attachments

/-- A virtual accelerator that is attached and active, under one lease. -/
theorem attachments_active : ∃ im, (Impl.initial {} true).run
      (Sample.attached ++ [Sample.call (.activate (Sample.owner 14 3))]) = some im ∧
    im.state.Attachments ∧
    (im.state.virtuals[14]?.any fun v => v.state = .active && v.leases = [23]) = true := by
  have hrun : (((Impl.initial {} true).run
      (Sample.attached ++ [Sample.call (.activate (Sample.owner 14 3))])).any fun im =>
      im.state.virtuals[14]?.any fun v => v.state = .active && v.leases = [23]) = true := by
    decide +kernel
  obtain ⟨im, him, hactive⟩ := (Option.any_eq_true _ _).mp hrun
  exact ⟨im, him, attachments_of_run him, hactive⟩

/-! ### Generations -/

/-- Every lease in use is bound to the generations of its virtual accelerator and of the runtime,
and its virtual accelerator is in use by its owner. -/
def VirtualizationState.GenerationBound (s : VirtualizationState) : Prop :=
  ∀ (id : LeaseId) (lease : LeaseRecord), s.leases[id]? = some lease →
    leaseStateIsLive lease.state = true → ∃ v : VirtualAcceleratorRecord,
      s.virtuals[lease.virtualId]? = some v ∧ lease.virtualGeneration = v.generation ∧
      lease.backingGeneration = v.backingGeneration ∧
      lease.tenantGeneration = v.ownerGeneration ∧ lease.policyGeneration = s.policyGeneration ∧
      lease.epoch = s.epoch ∧ lease.tenant = v.owner ∧
      (v.state = .attached ∨ v.state = .active ∨ v.state = .draining)

/-- What is kept along the runs in which no generation changes under a lease in use. -/
structure VirtualizationState.Current (s : VirtualizationState) : Prop extends s.Consistent where
  bound : s.book.Bound leaseRules

theorem VirtualizationState.Current.generationBound {s : VirtualizationState} (h : s.Current) :
    s.GenerationBound := by
  intro id lease hl hlive
  have hl' := Consistent.lease_of_record hl
  obtain ⟨q, hq, -⟩ := h.leased.listed id _ hl'
  obtain ⟨hocc, hstamp⟩ := h.bound id _ q hl' hlive hq
  have howner := h.leased.owner id _ q hl' hlive hq
  obtain ⟨v, hv, rfl⟩ := Consistent.record_of_seat hq
  exact ⟨v, hv, congrArg Stamp.virtualGeneration hstamp, congrArg Stamp.backingGeneration hstamp,
    congrArg Stamp.tenantGeneration hstamp, congrArg Stamp.policyGeneration hstamp,
    congrArg Stamp.epoch hstamp, howner, lifecycleAllowsLeases_iff.mp hocc⟩

namespace Impl

variable {im : Impl Disk}

/-- No generation changes under a lease in use: the operations are steady, and a runtime without a
store is not started for the first time over leases that were granted before. -/
def steadily (im : Impl Disk) : Event → Bool
  | .op op _ answer => !(im.answering answer).writable ||
    (im.answering answer).steady ((im.answering answer).resolve op)
  | .start _ => im.running || im.store.isSome || (valid im.state.epoch &&
      valid im.state.policyGeneration) || im.state.leases.toList.all fun (_, lease) =>
        !leaseStateIsLive lease.state
  | _ => true

theorem respects_current {T : Prop} : Respects T Current := by
  intro s t h hs
  refine ⟨respects_consistent h hs.toConsistent, ?_⟩
  have hv : s.virtuals = t.virtuals := h.entities .virtual nofun
  have hl : s.leases = t.leases := h.entities .lease nofun
  have hb := hs.bound
  simp only [Book.Bound, VirtualizationState.book, hv, hl, h.epoch, h.policyGeneration] at hb ⊢
  exact hb

theorem turns_classified {tight fair : Prop} (im : Impl Disk) (now : UnixMicros) :
    Turns (fun _ _ => True) (fun _ => True) tight fair im (im.classified now).1 :=
  turns_classifyMigrations now im.beginOp.state.migrations.keys (im.beginOp, false)
    fun _ _ => trivial

theorem bound_shutdownBody (h : im.state.Current) (clock : Clock) :
    (im.shutdownBody clock).state.book.Bound leaseRules := by
  have ht : Turns (fun _ _ => True) (fun _ => True) True False im (im.shutdownBody clock) :=
    turns_shutdownBody clock fun _ => trivial
  exact ht.bound trivial h.leased h.bound

theorem invariant_current {T : Prop} : Invariant T Current where
  respects := respects_current
  empty := ⟨consistent_empty, by simp [Book.Bound, VirtualizationState.book]⟩
  classified {im} now h := by
    have ht : Turns _ _ True False im (im.classified now).1 := turns_classified im now
    exact ⟨consistent_classified h.wellKeyed h.holds.toConsistent now,
      ht.bound trivial h.holds.leased h.holds.bound⟩
  shutdown clock h :=
    ⟨consistent_shutdownBody h.wellKeyed h.holds.toConsistent clock,
      bound_shutdownBody h.holds clock⟩

/-- A start that recovers nothing keeps the era, once there is one. -/
theorem era_startBody {base : Impl Disk} (clock : Clock) (he : valid base.state.epoch = true)
    (hp : valid base.state.policyGeneration = true) :
    base.book.era = (base.startBody clock false).book.era := by
  simp only [startBody, enterEpoch, he, Bool.not_true, Bool.false_eq_true, if_false]
  split
  · rename_i hc
    rw [show valid base.state.policyGeneration = true from hp] at hc
    cases hc
  · split <;> rfl

/-- A start keeps the leases in use bound, unless it begins an era over them. -/
theorem bound_startBody {base : Impl Disk} {clock : Clock} {recovered : Bool}
    (hs : im.steadily (.start clock) = true) (h : base.state.Current)
    (hnew : recovered = false → im.Restarts base) :
    (base.startBody clock recovered).state.book.Bound leaseRules := by
  cases recovered with
  | true =>
    have ht : Turns (fun _ _ => True) (fun _ => True) True False base (base.startBody clock true) :=
      turns_startBody_recovered clock fun _ => trivial
    exact ht.bound trivial h.leased h.bound
  | false =>
    have ht : Turns (fun _ _ => True) (fun _ => True) True False base
        (base.startBody clock false) := by
      refine turns_startBody_fresh clock fun _ l hl => ?_
      obtain ⟨hstate, hstore, hrunning⟩ | hempty := hnew rfl
      · simp only [steadily, hrunning, hstore, Option.isSome_none, Bool.false_or, Bool.or_eq_true,
          Bool.and_eq_true, List.all_eq_true] at hs
        obtain ⟨he, hp⟩ | hnone := hs
        · exact era_startBody clock (hstate ▸ he) (hstate ▸ hp)
        · obtain ⟨r, hr, hlive⟩ := Book.live_eq_true.mp hl
          obtain ⟨lease, hlease, rfl⟩ := Option.map_eq_some_iff.mp hr
          have hdead := hnone (l, lease)
            (Std.ExtTreeMap.mem_toList_iff_getElem?_eq_some.mpr (hstate ▸ hlease))
          rw [show leaseStateIsLive lease.state = true from hlive] at hdead
          cases hdead
      · obtain ⟨r, hr, -⟩ := Book.live_eq_true.mp hl
        rw [Impl.book, hempty] at hr
        simp [VirtualizationState.book] at hr
    exact ht.bound trivial h.leased h.bound

/-- A steady event keeps the leases in use bound to the current generations. -/
theorem keeps_current {event : Event} (h : Kept False Current im)
    (hs : im.steadily event = true) : Keeps False Current im event where
  body op clock answer he b hb hwritable := by
    have hsound := (h.answering answer).state
    subst he
    have ht : Lives _ False True False (im.answering answer) (b (im.answering answer).beginOp).1 :=
      lives_body hb hsound.wellKeyed hsound.holds.leased
        (fun auth c _ hc =>
          moving_of_commitMigrationCheck hsound.wellKeyed hsound.holds.toConsistent hc)
        (fun _ => of_writable hs hwritable) False.elim False.elim
    exact ⟨consistent_body hb hsound.wellKeyed hsound.holds.toConsistent,
      ht.bound trivial hsound.holds.leased hsound.holds.bound⟩
  start clock he base recovered hsound hnew :=
    ⟨consistent_startBody hsound.wellKeyed hsound.holds.toConsistent clock recovered,
      bound_startBody (he ▸ hs) hsound.holds hnew⟩
  written := nofun

end Impl

/-- In every state that a run of steady events reaches, the leases in use are bound to the current
generations. -/
theorem generationBound_of_run {options : RuntimeOptions} {stored : Bool} {events : List Event}
    {im : Impl Disk} (h : (Impl.initial options stored).run events = some im)
    (hs : (Impl.initial options stored).throughout Impl.steadily events = true) :
    im.state.GenerationBound :=
  ((Impl.kept_initial Impl.invariant_current options stored).run Impl.invariant_current
    (fun _ _ => Impl.keeps_current) h hs).state.holds.generationBound

/-- A virtual accelerator that is attached and active, and a refused attempt to attach it again. -/
theorem generationBound_active : ∃ im, (Impl.initial {} true).run
      (Sample.attached ++ [Sample.call (.activate (Sample.owner 14 3)),
        Sample.call (.attach (Sample.owner 14 4))]) = some im ∧
    im.state.GenerationBound ∧ im.state.leaseInUse 23 = true := by
  have hrun : (((Impl.initial {} true).run
      (Sample.attached ++ [Sample.call (.activate (Sample.owner 14 3)),
        Sample.call (.attach (Sample.owner 14 4))])).any fun im =>
          im.state.leaseInUse 23) = true := by
    decide +kernel
  obtain ⟨im, him, hlive⟩ := (Option.any_eq_true _ _).mp hrun
  exact ⟨im, him, generationBound_of_run him (by decide +kernel), hlive⟩

/-- A new contract for a virtual accelerator that is attached leaves its lease at the generation
before. -/
theorem not_generationBound_updateContract : ∃ im, (Impl.initial {} true).run
      (Sample.attached ++ [Sample.call (.updateContract (Sample.owner 14 3) Sample.contract)]) =
        some im ∧ ¬ im.state.GenerationBound := by
  have hrun : (((Impl.initial {} true).run
      (Sample.attached ++ [Sample.call (.updateContract (Sample.owner 14 3) Sample.contract)])).any
      fun im => im.state.leases[23]?.any fun lease => leaseStateIsLive lease.state &&
        !(im.state.virtuals[lease.virtualId]?.any fun v =>
          lease.virtualGeneration = v.generation)) = true := by
    decide +kernel
  obtain ⟨im, him, hbad⟩ := (Option.any_eq_true _ _).mp hrun
  obtain ⟨lease, hl, hbad⟩ := (Option.any_eq_true _ _).mp hbad
  rw [Bool.and_eq_true, Bool.not_eq_true'] at hbad
  refine ⟨im, him, fun h => ?_⟩
  obtain ⟨v, hv, hg, -⟩ := h 23 lease hl hbad.1
  rw [hv] at hbad
  simp [hg] at hbad

end AcceleratorVirtualization
