import AcceleratorVirtualization.Invariants.Runs
import AcceleratorVirtualization.Lib.References

/-!
# Records and what they name

A record that is loaded has to have a generation, and the records that it names have to be there.
No operation takes a record away, and what an operation enters or changes names records it found:
the tenant and the virtual accelerator it was asked about, the backing it checked.
-/

namespace AcceleratorVirtualization

open VirtualizationState Custody References

/-- Whether a record has a generation, if it is of a kind that has one. -/
def RecordKind.dated : (k : RecordKind) → k.Record → Bool
  | .tenant, r => valid r.generation
  | .physical, r => valid r.generation
  | .backing, r => valid r.generation
  | .virtual, r => valid r.generation
  | .lease, r => valid r.generation
  | .assignment, _ | .migration, _ | .evidence, _ => true

/-- The records a record depends on. A virtual accelerator without a backing names none. -/
def RecordKind.names : (k : RecordKind) → k.Record → List (RecordKind × ℕ)
  | .backing, r => [(.physical, r.physical)]
  | .virtual, r => (.tenant, r.owner) :: if r.backing = 0 then [] else [(.backing, r.backing)]
  | .lease, r => [(.virtual, r.virtualId), (.tenant, r.tenant)]
  | .assignment, r => [(.virtual, r.virtualId), (.backing, r.backing)]
  | .migration, r => [(.virtual, r.plan.virtualId), (.backing, r.plan.sourceBacking),
      (.backing, r.plan.destinationBacking)]
  | .tenant, _ | .physical, _ | .evidence, _ => []

/-- What a virtual accelerator names: its owner, and the backing it has. -/
theorem RecordKind.mem_names_virtual {v : VirtualAcceleratorRecord} {n : RecordKind × ℕ} :
    n ∈ RecordKind.names .virtual v ↔
      n = (.tenant, v.owner) ∨ v.backing ≠ 0 ∧ n = (.backing, v.backing) := by
  simp only [names, List.mem_cons]
  refine or_congr_right ?_
  split <;> simp_all

/-- What a load asks of records. -/
def recordScheme : Scheme RecordKind.Record ℕ where
  fit k r := k.dated r = true
  names := RecordKind.names

/-- Every record has its generation, and what it names is there. -/
def VirtualizationState.Rooted (s : VirtualizationState) : Prop := recordScheme.Rooted s.find

namespace VirtualizationState

variable {s : VirtualizationState} {k : RecordKind} {id : ℕ}

/-- What is found after a table was set, as a write to the records. -/
theorem find_setEntities (s : VirtualizationState) (k : RecordKind) (m : IdMap k.Record) :
    (s.setEntities k m).find = Function.update s.find k fun id => m[id]? := by
  funext k' id
  obtain rfl | hk := eq_or_ne k' k
  · rw [find_setEntities_self, Function.update_self]
  · rw [find_setEntities_of_ne s k hk, Function.update_of_ne hk]

/-- What is found after a record was put, as a write to the records. -/
theorem find_put (s : VirtualizationState) (k : RecordKind) (id : ℕ) (r : k.Record) :
    (s.put k id r).find = Scheme.write s.find k id (some r) := by
  rw [put, find_setEntities, Scheme.write]
  congr 1
  funext id'
  rw [Std.ExtTreeMap.getElem?_insert, Function.update_apply]
  simp only [Nat.compare_eq_eq, eq_comm (a := id), find]

/-- What is found after a record was changed, as a write to the records. -/
theorem find_modify (s : VirtualizationState) (k : RecordKind) (id : ℕ)
    (f : k.Record → k.Record) :
    (s.modify k id f).find = Scheme.write s.find k id ((s.find k id).map f) := by
  rw [modify, find_setEntities, Scheme.write]
  congr 1
  funext id'
  rw [Std.ExtTreeMap.getElem?_modify, Function.update_apply]
  simp only [Nat.compare_eq_eq, eq_comm (a := id), find]

/-- What is found after a record was inserted if absent, as a write to the records. -/
theorem find_emplace (s : VirtualizationState) (k : RecordKind) (id : ℕ) (r : k.Record) :
    (s.setEntities k ((s.entities k).insertIfNew id r)).find =
      Scheme.write s.find k id (some ((s.find k id).getD r)) := by
  rw [find_setEntities, Scheme.write]
  congr 1
  funext id'
  rw [Std.ExtTreeMap.getElem?_insertIfNew, Function.update_apply]
  simp only [Nat.compare_eq_eq, ← Std.ExtTreeMap.isSome_getElem?_iff_mem, find]
  obtain rfl | hne := eq_or_ne id' id
  · cases (s.entities k)[id']? <;> simp
  · simp [hne, hne.symm]

/-- A record that is found is there. -/
theorem has_of_find {r : k.Record} (h : s.find k id = some r) : Has s.find (k, id) :=
  Option.isSome_iff_exists.mpr ⟨r, h⟩

end VirtualizationState

namespace Impl

variable {σ : Type} {f : References.Records RecordKind.Record ℕ} {im im' im'' : Impl σ}
variable {k : RecordKind}
  {id : ℕ}

/-- No record of `f` was lost, and the records are rooted. -/
def Grounds (f : References.Records RecordKind.Record ℕ) (im' : Impl σ) : Prop :=
  recordScheme.Follows f im'.state.find

namespace Grounds

/-- Nothing is lost when nothing happens. -/
theorem refl (h : im.state.Rooted) : Grounds im.state.find im := Scheme.Rooted.follows h

/-- What was there is still there. -/
theorem has (h : Grounds f im') {n : RecordKind × ℕ} (hn : Has f n) : Has im'.state.find n :=
  h.kept n hn

/-- A step that leaves the records alone. -/
theorem of_entities (h : Grounds f im') (he : im''.state.entities = im'.state.entities) :
    Grounds f im'' := by
  have hfind : im''.state.find = im'.state.find := by
    funext k id
    rw [find, he, find]
  rw [Grounds, hfind]
  exact h

theorem touch (h : Grounds f im') (k : RecordKind) (id : ℕ) : Grounds f (im'.touch k id) :=
  h.of_entities rfl

theorem touchHeader (h : Grounds f im') : Grounds f im'.touchHeader := h.of_entities rfl

theorem takeId (h : Grounds f im') : Grounds f im'.takeId :=
  h.of_entities (funext fun k => by cases k <;> rfl)

theorem account (h : Grounds f im') (g : AccountingCounters → AccountingCounters) :
    Grounds f (im'.account g) :=
  h.of_entities (funext fun k => by cases k <;> rfl)

theorem recomputeDerivedAccounting (h : Grounds f im') :
    Grounds f im'.recomputeDerivedAccounting :=
  (h.account _).touchHeader

/-- A change of a record that sits after it if it did before. -/
theorem rename (h : Grounds f im') (k : RecordKind) (id : ℕ) (g : k.Record → k.Record)
    (hg : ∀ r, recordScheme.Sits im'.state.find k r → recordScheme.Sits im'.state.find k (g r)) :
    Grounds f (im'.modify k id g) := by
  rw [Grounds, Impl.modify, find_modify]
  exact Scheme.Follows.revise h hg

/-- A change of a record that leaves alone what it names, after which it has a generation. -/
theorem advance (h : Grounds f im') (k : RecordKind) (id : ℕ) (g : k.Record → k.Record)
    (hd : ∀ r, k.dated (g r) = true) (hn : ∀ r, k.names (g r) = k.names r) :
    Grounds f (im'.modify k id g) := by
  refine h.rename k id g fun r hr => ⟨hd r, fun n hmem => hr.named n ?_⟩
  have hmem' : n ∈ k.names (g r) := hmem
  rwa [hn r] at hmem'

/-- A change of a record that leaves its generation and what it names alone. -/
theorem modify (h : Grounds f im') (k : RecordKind) (id : ℕ) (g : k.Record → k.Record)
    (hg : ∀ r, (k.dated (g r), k.names (g r)) = (k.dated r, k.names r)) :
    Grounds f (im'.modify k id g) := by
  refine h.rename k id g fun r hr => ?_
  obtain ⟨hd, hn⟩ := Prod.mk.inj (hg r)
  refine ⟨hd.trans hr.fit, fun n hmem => hr.named n ?_⟩
  have hmem' : n ∈ k.names (g r) := hmem
  rwa [hn] at hmem'

/-- A record is entered that names only what was found. -/
theorem put (h : Grounds f im') {r : k.Record} (hd : k.dated r = true)
    (hn : ∀ n ∈ k.names r, Has f n) : Grounds f (im'.put k id r) := by
  rw [Grounds, Impl.put, find_put]
  exact Scheme.Follows.enter h ⟨hd, fun n hmem => h.has (hn n hmem)⟩

/-- A record that sits is entered, unless there is one. -/
theorem emplace (h : Grounds f im') {r : k.Record}
    (hr : im'.state.find k id = none → recordScheme.Sits im'.state.find k r) :
    Grounds f (im'.emplace k id r) := by
  rw [Grounds, Impl.emplace, find_emplace]
  refine Scheme.Follows.write h (fun _ => rfl) fun r' hr' => ?_
  cases hid : im'.state.find k id with
  | none =>
    rw [hid] at hr'
    cases hr'
    exact hr hid
  | some old =>
    rw [hid] at hr'
    cases hr'
    exact Scheme.Follows.rooted h k id old hid

theorem foldl {α : Type} {step : Impl σ → α → Impl σ} {l : List α} (h : Grounds f im')
    (hstep : ∀ a i, Grounds f i → Grounds f (step i a)) : Grounds f (l.foldl step im') :=
  List.foldlRecOn l step h fun i hi a _ => hstep a i hi

/-! ### Helpers -/

theorem rebuildProjection (h : Grounds f im') (id : VirtualAcceleratorId) :
    Grounds f (im'.rebuildProjection id) :=
  h.takeId.modify _ _ _ fun _ => by rfl

theorem fenceLease (h : Grounds f im') (reason : Text) (now : UnixMicros) (l : LeaseId) :
    Grounds f (im'.fenceLease reason now l) := by
  unfold Impl.fenceLease
  split
  · exact h
  · split
    · exact (h.touch _ _).modify .lease _ _ fun _ => by rfl
    · exact h

theorem fenceLeases (h : Grounds f im') (id : VirtualAcceleratorId) (reason : Text)
    (now : UnixMicros) : Grounds f (im'.fenceLeases id reason now) := by
  unfold Impl.fenceLeases
  split
  · exact h
  · rename_i v _
    have hfold : Grounds f
        (v.leases.foldl (fun im lease => im.fenceLease reason now lease) im') :=
      h.foldl fun l i hi => hi.fenceLease reason now l
    dsimp only
    split
    · exact hfold
    · refine (Grounds.account ?_ _).touchHeader
      have hcleared := (hfold.touch .virtual v.id).modify .virtual id
        (fun record => { record with activeAttachments := 0 }) fun _ => by rfl
      split
      · exact hcleared
      · exact (hcleared.touch _ _).modify .tenant _ _ fun _ => by rfl

theorem carryLease (h : Grounds f im') (generation : Generation) (l : LeaseId) :
    Grounds f (im'.carryLease generation l) := by
  unfold Impl.carryLease
  split
  · exact h
  · split
    · exact (h.touch _ _).modify .lease _ _ fun _ => by rfl
    · exact h

theorem transition (h : Grounds f im') (clock : Clock) (id : VirtualAcceleratorId)
    (target : VirtualLifecycleState) (reason : Text) :
    Grounds f (im'.transition clock id target reason).1 := by
  unfold Impl.transition
  split
  · exact h
  · rename_i v _
    split
    · exact h
    · have hmoved := (h.touch .virtual v.id).advance .virtual id
        (fun record => { record with
          state := target
          stateGeneration := record.stateGeneration + 1
          stateReason := reason
          generation := record.generation + 1
          updatedAt := clock.transition id }) (fun _ => by rfl) fun _ => by rfl
      dsimp only
      split
      · exact hmoved.foldl fun l i hi => hi.carryLease _ l
      · exact hmoved

theorem transitionAct (h : Grounds f im') (context : OpContext) (clock : Clock)
    (id : VirtualAcceleratorId) (target : VirtualLifecycleState) (reason : Text)
    {after : Impl σ → Impl σ} (hafter : ∀ i, Grounds f i → Grounds f (after i)) :
    Grounds f (Impl.transitionAct context clock id target reason after im').1 := by
  have ht := h.transition clock id target reason
  unfold Impl.transitionAct
  split <;> rename_i him <;> rw [him] at ht
  · exact ht
  · exact hafter _ ht

theorem releaseBacking (h : Grounds f im') (b : BackingId) :
    Grounds f (im'.releaseBacking b) := by
  unfold Impl.releaseBacking
  split
  · exact h
  · exact (h.touch _ _).modify .backing _ _ fun _ => by rfl

theorem revokeAssignment (h : Grounds f im') (g : BackingAssignmentId) (reason : Text)
    (now : UnixMicros) : Grounds f (im'.revokeAssignment g reason now) := by
  unfold Impl.revokeAssignment
  split
  · exact h
  · split
    · exact ((h.touch _ _).modify .assignment _ _ fun _ => by rfl).account _
    · exact h

theorem revokeValid (h : Grounds f im') (g : BackingAssignmentId) (reason : Text)
    (now : UnixMicros) :
    Grounds f (if valid g then im'.revokeAssignment g reason now else im') := by
  split
  · exact h.revokeAssignment g reason now
  · exact h

theorem drainPrevious (h : Grounds f im') (id : VirtualAcceleratorId)
    (value : VirtualAcceleratorRecord) (now : UnixMicros) :
    Grounds f (im'.drainPrevious id value now) := by
  simp only [Impl.drainPrevious]
  refine Grounds.fenceLeases (Grounds.modify (Grounds.touch (Grounds.releaseBacking ?_ _) _ _)
    .virtual _ _ fun _ => by rfl) _ _ _
  split
  · exact h
  · exact ((h.touch _ _).modify .assignment _ _ fun _ => by rfl).account _

/-- A virtual accelerator stays with its tenant and its backing, or comes to ones that are there. -/
theorem rebind (h : Grounds f im') (id : VirtualAcceleratorId)
    {g : VirtualAcceleratorRecord → VirtualAcceleratorRecord}
    (hd : ∀ v, valid v.generation = true → valid (g v).generation = true)
    (howner : ∀ v, (g v).owner = v.owner ∨ Has f (.tenant, (g v).owner))
    (hbacking : ∀ v, (g v).backing = v.backing ∨ (g v).backing = 0 ∨
      Has f (.backing, (g v).backing)) :
    Grounds f (im'.modify .virtual id g) := by
  refine h.rename .virtual id g fun v hv => ⟨hd v hv.fit, fun n hn => ?_⟩
  have hold : ∀ n ∈ RecordKind.names .virtual v, Has im'.state.find n := hv.named
  rcases RecordKind.mem_names_virtual.mp hn with rfl | ⟨hne, rfl⟩
  · rcases howner v with he | hhas
    · rw [he]
      exact hold _ (RecordKind.mem_names_virtual.mpr (.inl rfl))
    · exact h.has hhas
  · rcases hbacking v with he | hzero | hhas
    · rw [he] at hne ⊢
      exact hold _ (RecordKind.mem_names_virtual.mpr (.inr ⟨hne, rfl⟩))
    · exact absurd hzero hne
    · exact h.has hhas

end Grounds

/-! ### Bodies -/

section Acts

variable {auth : Authority} {clock : Clock} {owned : Owned}

/-- A new contract loses no record and keeps the records rooted. -/
theorem grounds_updateContractAct (h : Grounds f im) (contract : ResourceContract) :
    Grounds f (updateContractAct auth contract clock owned im).1 := by
  have hprobe :
    Grounds f (im.probeContract owned.record (contract.normalize im.options.sorting)).1 := by
    unfold probeContract
    split
    · exact h
    · exact h.takeId
  simp only [updateContractAct]
  split <;> rename_i him <;> rw [him] at hprobe
  · exact hprobe
  · exact ((hprobe.touch _ _).takeId.advance .virtual _ _ (fun _ => by rfl)
      fun _ => by rfl).rebuildProjection _

/-- Fencing a virtual accelerator loses no record and keeps the records rooted. -/
theorem grounds_fenceVirtualAct (h : Grounds f im) (reason : Text) :
    Grounds f (fenceVirtualAct auth reason clock owned im).1 := by
  have hfenced := h.fenceLeases owned.virtualId (txt "virtual accelerator fenced: " ++ reason)
    clock.now
  exact (hfenced.touch _ _).transitionAct _ clock _ _ _ fun i hi => hi.recomputeDerivedAccounting

/-- A suspension loses no record and keeps the records rooted. -/
theorem grounds_suspendAct (h : Grounds f im) (reason : Text) :
    Grounds f (suspendAct auth reason clock owned im).1 := by
  have hrevoked := h.revokeValid owned.record.assignment
    (txt "virtual accelerator suspended: " ++ reason) clock.now
  simp only [suspendAct]
  refine Grounds.transitionAct ?_ _ clock _ _ _ fun i hi => hi.recomputeDerivedAccounting
  have hcleared := (hrevoked.releaseBacking owned.record.backing).touch .virtual owned.record.id
  refine (hcleared.rebind _ ?_ ?_ ?_).rebuildProjection _
  · exact fun _ hd => hd
  · exact fun _ => .inl rfl
  · exact fun _ => .inr (.inl rfl)

/-- The owner is there, so that no empty record is made of it. -/
theorem grounds_retireVirtualAct (h : Grounds f im) (reason : Text)
    (howner : Has f (.tenant, owned.record.owner)) :
    Grounds f (retireVirtualAct auth reason clock owned im).1 := by
  have hfenced := h.fenceLeases owned.virtualId (txt "virtual accelerator retired") clock.now
  have hemplaced : Grounds f (Impl.emplace _ .tenant owned.record.owner {}) :=
    hfenced.emplace fun hnone => by
      have hsome := hfenced.has howner
      simp [Has, hnone] at hsome
  simp only [retireVirtualAct]
  refine Grounds.transitionAct ?_ _ clock _ _ _
    fun i hi => (hi.account _).recomputeDerivedAccounting
  refine Grounds.rebuildProjection (Grounds.rebind (Grounds.touch (Grounds.releaseBacking
    (Grounds.revokeValid (Grounds.modify (hemplaced.touch _ _) .tenant _ _ fun _ => by rfl) _ _ _)
      _) _ _) _ ?_ ?_ ?_) _
  · exact fun _ hd => hd
  · exact fun _ => .inl rfl
  · exact fun _ => .inr (.inl rfl)

/-- Assigning a backing loses no record and keeps the records rooted. -/
theorem grounds_assignBackingAct {operation : String} {backingId : BackingId} {replacing : Bool}
    {reason : Text} {backing : BackingRecord} (h : Grounds f im)
    (hvirtual : Has f (.virtual, owned.record.id)) (hbacking : Has f (.backing, backing.id)) :
    Grounds f
      (assignBackingAct operation auth backingId replacing reason clock (owned, backing) im).1 := by
  simp only [assignBackingAct]
  generalize him1 : (if replacing then im.drainPrevious owned.virtualId owned.record clock.now
    else im) = im1
  have hdrained : Grounds f im1 := by
    rw [← him1]
    split
    · exact h.drainPrevious _ _ _
    · exact h
  generalize him2 : Impl.rebuildProjection _ owned.virtualId = im2
  have hrebound : Grounds f im2 := by
    rw [← him2]
    refine Grounds.rebuildProjection (Grounds.rebind (hdrained.takeId.touch _ _) _ ?_ ?_ ?_) _
    · exact fun _ _ => rfl
    · exact fun _ => .inl rfl
    · exact fun _ => .inr (.inr hbacking)
  refine Grounds.touchHeader (Grounds.account (Grounds.modify (Grounds.touch (Grounds.put
    (Grounds.touch (Grounds.modify hrebound .virtual _ _ fun _ => by rfl) _ _) (by rfl) ?_) _ _)
      .backing _ _ fun _ => by rfl) _)
  intro n hn
  obtain rfl | hn := List.mem_cons.mp hn
  · exact hvirtual
  · obtain rfl := List.mem_singleton.mp hn
    exact hbacking

/-- The lease is of the virtual accelerator and of the tenant that were found. -/
theorem grounds_attachAct (h : Grounds f im) (hvirtual : Has f (.virtual, owned.record.id))
    (htenant : Has f (.tenant, owned.tenant.id)) :
    Grounds f (attachAct auth clock owned im).1 := by
  simp only [attachAct]
  generalize him1 : Impl.modify _ .tenant owned.tenantId _ = im1
  have hcounted : Grounds f im1 := by
    rw [← him1]
    exact (((h.takeId.touch _ _).modify .virtual _ _ fun _ => by rfl).touch _
      _).modify .tenant _ _ fun _ => by rfl
  have hmoved := hcounted.transition clock owned.virtualId .attached
    (txt "tenant attached under a generation-bound lease")
  split
  · rename_i him
    exact ite_fst (p := Grounds f) hcounted hmoved him
  · rename_i im2 him
    have hgranted := ite_fst (p := Grounds f) hcounted hmoved him
    refine (Grounds.account (Grounds.put (hgranted.touch _ _) (by rfl) ?_) _).touchHeader
    intro n hn
    obtain rfl | hn := List.mem_cons.mp hn
    · exact hvirtual
    · obtain rfl := List.mem_singleton.mp hn
      exact htenant

/-- Renewing a lease loses no record and keeps the records rooted. -/
theorem grounds_renewLeaseAct (h : Grounds f im) {target : LeaseId × LeaseRecord} :
    Grounds f (renewLeaseAct auth clock target im).1 :=
  (((h.touch _ _).advance .lease _ _ (fun _ => by rfl) fun _ => by rfl).account _).touchHeader

/-- Detaching or revoking a lease loses no record and keeps the records rooted. -/
theorem grounds_releaseLeaseAct (h : Grounds f im) {held : Held} (operation : String)
    (reason : Text) (lastReason : String) (book : AccountingCounters → AccountingCounters) :
    Grounds f (releaseLeaseAct operation auth clock reason lastReason book held im).1 := by
  have hreleased : Grounds f (im.releaseLease held reason clock.now book) := by
    simp only [releaseLease]
    refine Grounds.touchHeader (Grounds.account ?_ _)
    have hcounted := (((h.touch .lease held.lease.id).modify .lease held.leaseId
        (fun lease => { lease with
          state := .revoked, revokedAt := clock.now, reason }) fun _ => by rfl).touch
        .virtual held.record.id).modify .virtual held.virtualId
      (fun v => { v with
        activeAttachments := v.activeAttachments - 1, updatedAt := clock.now }) fun _ => by rfl
    split
    · exact hcounted
    · exact (hcounted.touch _ _).modify .tenant _ _ fun _ => by rfl
  have hmoved := hreleased.transition clock held.virtualId .provisioned (txt lastReason)
  simp only [releaseLeaseAct]
  split
  · rename_i him
    exact ite_fst (p := Grounds f) hmoved hreleased him
  · rename_i him
    exact ite_fst (p := Grounds f) hmoved hreleased him

/-- A plan is about the backing that is used and the one that was asked for. -/
theorem grounds_planMigrationAct {destination : BackingId} {klass : MigrationClass}
    {backing : BackingRecord} (h : Grounds f im) (hvirtual : Has f (.virtual, owned.record.id))
    (hsource : Has f (.backing, owned.record.backing))
    (hdestination : Has f (.backing, destination)) :
    Grounds f (planMigrationAct auth destination klass clock (owned, backing) im).1 := by
  have hmarked := (h.takeId.touch .virtual owned.record.id).modify .virtual owned.virtualId
    (fun v => { v with migration := im.nextId, migrationGeneration := 1 }) fun _ => by rfl
  refine Grounds.touchHeader (Grounds.account (Grounds.put (hmarked.touch _ _) (by rfl) ?_) _)
  intro n hn
  simp only [RecordKind.names, List.mem_cons, List.not_mem_nil, or_false] at hn
  rcases hn with rfl | rfl | rfl
  · exact hvirtual
  · exact hsource
  · exact hdestination

/-- Completing a migration loses no record and keeps the records rooted. -/
theorem grounds_completeMigrationAct (h : Grounds f im) {m : InFlight} :
    Grounds f (completeMigrationAct auth clock m im).1 :=
  (((h.touch _ _).modify .migration _ _ fun _ => by rfl).touch _ _).modify
    .virtual _ _ fun _ => by rfl

/-- Aborting a migration loses no record and keeps the records rooted. -/
theorem grounds_abortMigrationAct (h : Grounds f im) {m : InFlight} (reason : Text) :
    Grounds f (abortMigrationAct auth reason clock m im).1 := by
  have hfailed : Grounds f (im.failDestination m.migration.destinationAssignment
      (txt "migration aborted before cutover: " ++ reason) clock.now) := by
    unfold failDestination
    split
    · exact h
    · exact (h.touch _ _).modify .assignment _ _ fun _ => by rfl
  have haborted := ((hfailed.touch .migration m.migration.plan.id).modify .migration m.migrationId
    (fun m => { m with
      state := .aborted
      sourceAuthoritative := true
      destinationAuthoritative := false
      completedAt := clock.now
      note := reason }) fun _ => by rfl).account
        fun a => { a with migrationsAborted := a.migrationsAborted + 1 }
  have hmoved := haborted.transition clock m.virtualId .provisioned
    (txt "migration aborted before cutover; the source backing remains authoritative")
  simp only [abortMigrationAct]
  split
  · rename_i him
    exact ite_fst (p := Grounds f) hmoved haborted him
  · rename_i him
    exact (ite_fst (p := Grounds f) hmoved haborted him).touchHeader

/-- The virtual accelerator is bound to a backing that is there. -/
theorem grounds_commitMigrationAct {c : Cutover} (h : Grounds f im)
    (hdestination : Has f (.backing, c.migration.plan.destinationBacking)) :
    Grounds f (commitMigrationAct auth clock c im).1 := by
  have hrebound : Grounds f (im.rebindVirtual c clock.now) := by
    simp only [rebindVirtual]
    exact Grounds.modify (Grounds.rebuildProjection ((h.touch _ _).rebind _ (fun _ _ => by rfl)
      (fun _ => .inl (by rfl)) fun _ => .inr (.inr hdestination)) _) .virtual _ _ fun _ => by rfl
  simp only [commitMigrationAct]
  refine Grounds.touchHeader (Grounds.account (Grounds.modify (Grounds.touch ?_ _ _) .migration _ _
    fun _ => by rfl) _)
  simp only [cutoverAuthority]
  -- from the last change to the first: both backings, the new assignment, the one it replaces
  refine Grounds.modify (Grounds.touch ?_ _ _) .backing _ _ fun _ => by rfl
  refine Grounds.modify (Grounds.touch ?_ _ _) .backing _ _ fun _ => by rfl
  refine Grounds.modify (Grounds.touch ?_ _ _) .assignment _ _ fun _ => by rfl
  exact Grounds.account (Grounds.modify (hrebound.touch _ _) .assignment _ _ fun _ => by rfl) _

/-- The prepared assignment is of the virtual accelerator and to the destination as they are. -/
theorem grounds_prepareMigrationAct {m : InFlight} (h : Grounds f im) (ht : Tracks im ∅ im)
    (hm : m.Current im.state) (hvirtual : Has f (.virtual, m.virtualId))
    (hdestination : Has f (.backing, m.migration.plan.destinationBacking)) :
    Grounds f (prepareMigrationAct auth clock m im).1 := by
  have htracks := ht.transition clock m.virtualId .migrating
    (txt "migration prepared; leases are drained before cutover")
  have hmoved := h.transition clock m.virtualId .migrating
    (txt "migration prepared; leases are drained before cutover")
  simp only [prepareMigrationAct]
  split <;> rename_i him <;> rw [him] at hmoved htracks
  · exact hmoved
  · have hdrained := hmoved.fenceLeases m.virtualId
      (txt "migration drained the source backing; the lease is bound to the source generation")
      clock.now
    have htracks' := htracks.fenceLeases m.virtualId
      (txt "migration drained the source backing; the lease is bound to the source generation")
      clock.now
    refine Grounds.touchHeader (Grounds.account (Grounds.modify (Grounds.touch (Grounds.put
      (Grounds.touch hdrained.takeId _ _) (by rfl) ?_) _ _) .migration _ _ fun _ => by rfl) _)
    have hgrant := toGrant_prepareDestination htracks' hm clock.now
    intro n hn
    obtain rfl | hn := List.mem_cons.mp hn
    · rw [show BackingAssignment.virtualId _ = m.virtualId from congrArg Grant.party hgrant]
      exact hvirtual
    · obtain rfl := List.mem_singleton.mp hn
      rw [show BackingAssignment.backing _ = m.migration.plan.destinationBacking from
        congrArg Grant.resource hgrant]
      exact hdestination

/-- A virtual accelerator passes to a tenant that is there. -/
theorem grounds_transferOwnershipAct {t : Transfer} (h : Grounds f im) (newOwner : TenantId)
    (howner : Has f (.tenant, t.destination.id)) :
    Grounds f (transferOwnershipAct auth newOwner clock t im).1 := by
  simp only [transferOwnershipAct]
  have hlisted := Grounds.touch (Grounds.touch (Grounds.modify (Grounds.touch (Grounds.modify
    (h.fenceLeases t.virtualId (txt "ownership transferred to tenant " ++ strTenant newOwner)
      clock.now) .tenant t.tenantId (fun source => { source with
        owned := source.owned.filter (· ≠ t.record.id), activeAttachments := 0
        updatedAt := clock.now }) fun _ => by rfl) .tenant t.tenant.id) .tenant newOwner
    (fun dest => { dest with
      owned := (dest.owned ++ [t.record.id]).insertionSort (· ≤ ·), updatedAt := clock.now })
    fun _ => by rfl) .tenant t.destination.id) .virtual t.record.id
  refine hlisted.rebind t.virtualId (fun _ _ => rfl) (fun v => .inr ?_) fun v => .inl ?_
  · dsimp only
    split <;> exact howner
  · dsimp only
    split <;> rfl

/-- Creating a tenant loses no record and keeps the records rooted. -/
theorem grounds_createTenantAct (h : Grounds f im) (name externalSubject : Text) :
    Grounds f (createTenantAct auth name externalSubject clock () im).1 := by
  refine Grounds.put (h.takeId.touch _ _) (by rfl) fun n hn => ?_
  cases hn

/-- Creating a virtual accelerator loses no record and keeps the records rooted. -/
theorem grounds_createVirtualAct (h : Grounds f im) (name : Text) {owner : TenantId}
    (ownerGeneration : Generation) (contract : ResourceContract) (tenant : TenantRecord)
    (howner : Has f (.tenant, owner)) :
    Grounds f (createVirtualAct auth name owner ownerGeneration contract clock tenant im).1 := by
  simp only [createVirtualAct]
  refine Grounds.touchHeader (Grounds.account (Grounds.modify (Grounds.touch (Grounds.put
    (Grounds.takeId (h.takeId.takeId.touch _ _)) (by rfl) ?_) _ _) .tenant _ _ fun _ => by rfl) _)
  intro n hn
  obtain rfl := List.mem_singleton.mp hn
  exact howner

/-- Fencing what a tenant owns loses no record and keeps the records rooted. -/
theorem grounds_fenceOwned {i : Impl σ} (h : Grounds f i) (tenant : TenantId)
    (generation : Generation) (now : UnixMicros) (id : VirtualAcceleratorId) :
    Grounds f (fenceOwned tenant generation now i id) := by
  unfold fenceOwned
  split
  · exact h
  · have hfenced := ((h.touch .virtual id).modify .virtual id
      (fun v => { v with ownerGeneration := generation }) fun _ => rfl).fenceLeases id
        (txt "tenant " ++ strTenant tenant ++ txt " was fenced") now
    refine hfenced.rebind id (fun v hv => ?_) (fun v => .inl ?_) fun v => .inl ?_
    · split
      · rfl
      · exact hv
    · split <;> rfl
    · split <;> rfl

/-- Fencing a tenant loses no record and keeps the records rooted. -/
theorem grounds_fenceTenantAct (h : Grounds f im) (id : TenantId) (reason : Text)
    (tenant : TenantRecord) : Grounds f (fenceTenantAct auth id reason clock tenant im).1 := by
  refine Grounds.recomputeDerivedAccounting (Grounds.modify (Grounds.foldl (Grounds.advance
    (h.touch _ _) .tenant _ _ (fun _ => by rfl) fun _ => by rfl) ?_) .tenant _ _ fun _ => by rfl)
  exact fun x i hi => grounds_fenceOwned hi _ _ _ x

/-! ### The policy -/

/-- Validating again leaves a virtual accelerator with the owner and the backing it names. -/
theorem detachForPolicy_names (updated : VirtualizationPolicy) (now : UnixMicros)
    (v : VirtualAcceleratorRecord) :
    (detachForPolicy updated now v).owner = v.owner ∧
      (detachForPolicy updated now v).backing = v.backing ∧
      (valid v.generation = true → valid (detachForPolicy updated now v).generation = true) := by
  simp only [detachForPolicy]
  split
  · exact ⟨rfl, rfl, fun _ => rfl⟩
  · exact ⟨rfl, rfl, fun hv => hv⟩

/-- Validating a virtual accelerator again loses no record and keeps the records rooted. -/
theorem grounds_revalidateVirtual {i : Impl σ} (h : Grounds f i) (updated : VirtualizationPolicy)
    (now : UnixMicros) (id : VirtualAcceleratorId) :
    Grounds f (i.revalidateVirtual updated now id) := by
  unfold revalidateVirtual
  split
  · exact h
  · split
    · exact h
    · rename_i record _ _
      have hdetached : Grounds f ((i.touchVirtual record.id).modify .virtual id
          (detachForPolicy updated now)) := by
        refine (h.touch _ _).rebind id (fun v => ?_) (fun v => .inl ?_) fun v => .inl ?_
        · exact (detachForPolicy_names updated now v).2.2
        · exact (detachForPolicy_names updated now v).1
        · exact (detachForPolicy_names updated now v).2.1
      dsimp only
      refine Grounds.rebuildProjection ?_ _
      split
      · exact hdetached
      · exact Grounds.advance (Grounds.modify (Grounds.touch (hdetached.revokeValid _ _ _) _ _)
          .backing _ _ fun _ => by rfl) .virtual _ _ (fun _ => by rfl) fun _ => by rfl

/-- A new policy loses no record and keeps the records rooted. -/
theorem grounds_setPolicyAct (h : Grounds f im) (policy : VirtualizationPolicy) :
    Grounds f (setPolicyAct auth clock policy im).1 := by
  simp only [setPolicyAct]
  refine Grounds.touchHeader (Grounds.recomputeDerivedAccounting ?_)
  refine Grounds.foldl (Grounds.foldl (Grounds.foldl (Grounds.account ?_ _) ?_) ?_) ?_
  · exact h.takeId.of_entities (funext fun k => by cases k <;> rfl)
  · intro l i hi
    unfold supersedeLease
    split
    · exact hi
    · split
      · exact ((hi.touch _ _).modify .lease _ _ fun _ => by rfl).account _
      · exact hi
  · exact fun x i hi => grounds_revalidateVirtual hi _ _ x
  · intro t i hi
    unfold clearAttachments
    split
    · exact hi
    · split
      · exact (hi.touch _ _).modify .tenant _ _ fun _ => by rfl
      · exact hi

/-! ### Devices -/

/-- Losing a device loses no record and keeps the records rooted. -/
theorem grounds_physicalLostAct (h : Grounds f im) {id : PhysicalDeviceId}
    {generation : Generation} {reason : Text} {device : PhysicalDeviceRecord} :
    Grounds f (physicalLostAct id generation reason clock device im).1 := by
  have hlose : ∀ (b : BackingId) (i : Impl σ), Grounds f i →
      Grounds f (i.loseBacking reason clock.now b) := by
    intro b i hi
    unfold loseBacking
    split
    · exact hi
    · have hlost := (hi.touch .backing b).modify .backing b
        (fun b => { b with available := false, evidenceFresh := false }) fun _ => rfl
      dsimp only
      split
      · exact hlost
      · split
        · exact hlost
        · refine Grounds.modify (Grounds.revokeValid (Grounds.fenceLeases ?_ _ _ _) _ _ _) .backing
            _ _ fun _ => by rfl
          unfold interruptHolder
          dsimp only
          split
          · exact (hlost.touch _ _).advance .virtual _ _ (fun _ => by rfl) fun _ => by rfl
          · exact hlost.touch _ _
  have hcount : ∀ (t : TenantId) (i : Impl σ), Grounds f i →
      Grounds f (i.recountTenant clock.now t) := by
    intro t i hi
    unfold recountTenant
    split
    · exact hi
    · dsimp only
      split
      · exact (hi.touch _ _).modify .tenant _ _ fun _ => by rfl
      · exact hi
  exact Grounds.touchHeader (Grounds.recomputeDerivedAccounting (Grounds.account (Grounds.foldl
    (Grounds.foldl ((h.touch _ _).modify .physical _ _ fun _ => by rfl) hlose) hcount) _))

/-- Describing a device loses no record and keeps the records rooted. -/
theorem grounds_describeDevice (h : Grounds f im) (agent : AgentId) (boot : AgentBootId)
    (d : PhysicalDeviceDescriptor) (now : UnixMicros) :
    Grounds f (im.describeDevice agent boot d now).1 := by
  have hlocated : Grounds f (im.locateDevice d).1 := by
    unfold locateDevice
    split
    · exact (h.takeId.touch _ _).emplace fun _ => ⟨rfl, by rintro n ⟨⟩⟩
    · dsimp only
      split
      · exact (h.touch _ _).advance .physical _ _ (fun _ => by rfl) fun _ => by rfl
      · exact h.touch _ _
  refine Grounds.account (Grounds.put (Grounds.touch (hlocated.takeId.modify .physical _ _
    fun _ => by rfl) _ _) (by rfl) fun n hn => ?_) _
  cases hn

/-- A new backing names the device that is described. -/
theorem grounds_materializeBacking {i : Impl σ} (h : Grounds f i) (key : PhysicalDeviceId)
    {device : PhysicalDeviceRecord} (hdevice : Has f (.physical, device.id)) (now : UnixMicros)
    (source : BackingDescriptor) : Grounds f (i.materializeBacking key device now source) := by
  unfold materializeBacking
  split
  · refine Grounds.modify (Grounds.modify ((h.takeId.touch _ _).emplace fun _ => ?_) .physical _ _
      fun _ => by rfl) .backing _ _ fun _ => by rfl
    refine ⟨rfl, fun n hn => ?_⟩
    obtain rfl := List.mem_singleton.mp hn
    exact h.has hdevice
  · exact (h.touch _ _).advance .backing _ _ (fun _ => by rfl) fun _ => by rfl

/-- Invalidating a backing loses no record and keeps the records rooted. -/
theorem grounds_invalidateBacking {i : Impl σ} (h : Grounds f i) (now : UnixMicros)
    (id : BackingId) : Grounds f (i.invalidateBacking now id) := by
  have hbinding : ∀ g, Grounds f (i.invalidateBinding now g) := by
    intro g
    unfold invalidateBinding
    split
    · exact h
    · split
      · have hrevoked := h.revokeAssignment g
          (txt "the physical device generation changed under this backing") now
        unfold invalidateHolder
        split
        · exact hrevoked
        · split
          · exact (hrevoked.touch _ _).advance .virtual _ _ (fun _ => by rfl) fun _ => by rfl
          · exact hrevoked
      · exact h
  unfold invalidateBacking
  split
  · exact h
  · exact ((hbinding _).touch _ _).modify .backing _ _ fun _ => by rfl

/-- Settling the backings of a device loses no record and keeps the records rooted. -/
theorem grounds_settleBackings (h : Grounds f im) {key : PhysicalDeviceId}
    (hdevice : Has f (.physical, (im.state.physical[key]?.getD {}).id)) (changed : Bool)
    (d : PhysicalDeviceDescriptor) (now : UnixMicros) :
    Grounds f (im.settleBackings key changed d now) := by
  have hmade : Grounds f (d.backings.foldl (materializeBacking key _ now) im) :=
    h.foldl fun source i hi => grounds_materializeBacking hi key hdevice now source
  simp only [settleBackings]
  split
  · exact hmade.foldl fun b i hi => grounds_invalidateBacking hi now b
  · refine hmade.foldl fun b i hi => ?_
    unfold refreshBacking
    split
    · exact hi
    · exact (hi.touch _ _).modify .backing _ _ fun _ => by rfl

/-- The backings are entered after the device, which is there by then. -/
theorem grounds_registerPhysicalAct {s : Impl σ} {T : Set (RecordKind × ℕ)} (hs : Tracks s T im)
    (h : Grounds f im) (agent : AgentId) (boot : AgentBootId) (d : PhysicalDeviceDescriptor) :
    Grounds f (registerPhysicalAct auth agent boot d clock () im).1 := by
  obtain ⟨hs1, hsome⟩ := hs.describeDevice agent boot d clock.now
  have hdescribed := grounds_describeDevice h agent boot d clock.now
  simp only [registerPhysicalAct]
  generalize im.describeDevice agent boot d clock.now = described at hs1 hsome hdescribed ⊢
  obtain ⟨im1, key, changed⟩ := described
  obtain ⟨device, hfind⟩ := Option.isSome_iff_exists.mp hsome
  have hid : (im1.state.physical[key]?.getD {}).id = key := by
    rw [show im1.state.physical[key]? = some device from hfind]
    exact hs1.idOf_eq (k := .physical) hfind
  have hsettled : Grounds im1.state.find (im1.settleBackings key changed d clock.now) := by
    refine grounds_settleBackings (.refl hdescribed.rooted) ?_ changed d clock.now
    rw [hid]
    exact hsome
  exact Grounds.touchHeader (Grounds.account (Scheme.Follows.trans hdescribed hsettled) _)

/-! ### Recovery, start and shutdown -/

/-- Classifying the migrations after a restart loses no record and keeps the records rooted. -/
theorem grounds_classified (h : Grounds f im) (now : UnixMicros) :
    Grounds f (im.classified now).1 := by
  refine List.foldlRecOn _ _ (motive := fun acc : Impl σ × Bool => Grounds f acc.1) h
    fun acc hacc key _ => ?_
  simp only [classifyMigration]
  split
  · exact hacc
  · split
    · exact hacc
    · split
      · exact (hacc.touch _ _).modify .migration _ _ fun _ => by rfl
      · split
        · exact hacc
        · have haborted : ∀ (i : Impl σ) g, Grounds f i → Grounds f (i.failRecovered now g) := by
            intro i g hi
            unfold failRecovered
            split
            · exact hi
            · split
              · exact hi
              · exact (hi.touch _ _).modify .assignment _ _ fun _ => by rfl
          refine Grounds.rebind (Grounds.touch (haborted _ _ (Grounds.account ((hacc.touch _
            _).modify .migration _ _ fun _ => by rfl) _)) _ _) _ (fun v hv => ?_) (fun v => .inl ?_)
              fun v => .inl ?_
          · split
            · rfl
            · exact hv
          · split <;> rfl
          · split <;> rfl

/-- Ending a lease loses no record and keeps the records rooted. -/
theorem grounds_endLease {i : Impl σ} (h : Grounds f i) (ended : LeaseState) (reason : Text)
    (now : UnixMicros) (id : LeaseId) : Grounds f (i.endLease ended reason now id) := by
  unfold endLease
  split
  · exact h
  · split
    · exact (((h.touch _ _).modify .lease _ _ fun _ => by rfl).account _).touchHeader
    · exact h

/-- Releasing the attachments of a virtual accelerator loses no record and keeps the records
rooted. -/
theorem grounds_releaseAttachments {i : Impl σ} (h : Grounds f i) (reason : Text)
    (now : UnixMicros) (id : VirtualAcceleratorId) :
    Grounds f (i.releaseAttachments reason now id) := by
  unfold releaseAttachments
  split
  · exact h
  · rename_i record _
    have hreleased : Grounds f (if record.activeAttachments ≠ 0 then
        (i.touchVirtual record.id).modify .virtual id fun v => { v with activeAttachments := 0 }
        else i) := by
      split
      · exact (h.touch _ _).modify .virtual _ _ fun _ => by rfl
      · exact h
    dsimp only
    split
    · exact (hreleased.touch _ _).advance .virtual _ _ (fun _ => by rfl) fun _ => by rfl
    · exact hreleased

/-- Releasing the attachments of a tenant loses no record and keeps the records rooted. -/
theorem grounds_releaseTenant {i : Impl σ} (h : Grounds f i) (updated : Option UnixMicros)
    (id : TenantId) : Grounds f (i.releaseTenant updated id) := by
  unfold releaseTenant
  split
  · exact h
  · split
    · exact (h.touch _ _).modify .tenant _ _ fun _ => by rfl
    · exact h

/-- Recording an outcome loses no record and keeps the records rooted. -/
theorem grounds_record (h : Grounds f im) (context : OpContext) (outcome : StatusCode)
    (reason : Text) (kind : AuditKind) :
    Grounds f (im.record clock context outcome reason kind) :=
  h.of_entities (funext fun k => by cases k <;> rfl)

/-- A shutdown, before it commits, loses no record and keeps the records rooted. -/
theorem grounds_shutdownBody (h : Grounds f im) : Grounds f (im.shutdownBody clock) := by
  refine grounds_record (Grounds.touchHeader (Grounds.recomputeDerivedAccounting ?_)) _ _ _ _
  exact Grounds.foldl (Grounds.foldl (h.foldl fun l i hi => grounds_endLease hi _ _ _ l)
    fun x i hi => grounds_releaseAttachments hi _ _ x) fun t i hi => grounds_releaseTenant hi _ t

/-- Dropping local authority loses no record and keeps the records rooted. -/
theorem grounds_dropLocalAuthority (h : Grounds f im) (now : UnixMicros) :
    Grounds f (im.dropLocalAuthority now) := by
  simp only [dropLocalAuthority]
  generalize him1 : im.state.leases.keys.foldl _ im = im1
  have h1 : Grounds f im1 := him1 ▸ h.foldl fun l i hi => grounds_endLease hi _ _ _ l
  generalize him2 : im1.state.virtuals.keys.foldl _ im1 = im2
  have h2 : Grounds f im2 := him2 ▸ h1.foldl fun x i hi => grounds_releaseAttachments hi _ _ x
  generalize him3 : im2.state.tenants.keys.foldl _ im2 = im3
  have h3 : Grounds f im3 := him3 ▸ h2.foldl fun t i hi => grounds_releaseTenant hi _ t
  generalize him4 : im3.state.backings.keys.foldl _ im3 = im4
  have h4 : Grounds f im4 := by
    rw [← him4]
    refine h3.foldl fun b i hi => ?_
    unfold distrustBacking
    split
    · exact hi
    · exact (hi.touch _ _).modify .backing _ _ fun _ => by rfl
  generalize him5 : im4.state.physical.keys.foldl _ im4 = im5
  have h5 : Grounds f im5 := by
    rw [← him5]
    refine h4.foldl fun p i hi => ?_
    unfold distrustPhysical
    split
    · exact hi
    · exact (hi.touch _ _).modify .physical _ _ fun _ => by rfl
  have h6 : Grounds f { im5 with state.requests := [] } :=
    h5.of_entities (funext fun k => by cases k <;> rfl)
  exact h6.recomputeDerivedAccounting.touchHeader

/-- A start, after it has loaded, loses no record and keeps the records rooted. -/
theorem grounds_startBody (h : Grounds f im) (recovered : Bool) :
    Grounds f (im.startBody clock recovered) := by
  have hentered : Grounds f (im.enterEpoch recovered) := by
    refine h.of_entities ?_
    simp only [enterEpoch]
    split
    · exact funext fun k => by cases k <;> rfl
    · split <;> exact funext fun k => by cases k <;> rfl
  simp only [startBody]
  split
  · exact grounds_record (grounds_dropLocalAuthority hentered _) _ _ _ _
  · exact grounds_record hentered _ _ _ _

end Acts

end Impl

end AcceleratorVirtualization
