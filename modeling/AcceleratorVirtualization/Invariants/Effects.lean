import AcceleratorVirtualization.Invariants.Durable

/-!
# What an operation can do

An operation either does not reach the store, and then at most uses up an identity, or it
commits what it tracked. The state it is rolled back to is the one it found, except for an
accepted transfer (the tenants were changed before they were touched) and for the registration
of an agent (the identities and the counter were taken before the operation began).
-/

namespace AcceleratorVirtualization

open VirtualizationState

/-! ### States that agree -/

/-- The states have the same records and the same authority; the tenants may own and use
different things unless `T`. -/
structure VirtualizationState.Alike (T : Prop) (s t : VirtualizationState) : Prop where
  entities : ∀ k, k ≠ .tenant → s.entities k = t.entities k
  standing : ∀ id : ℕ, s.tenants[id]?.map TenantRecord.standing =
    t.tenants[id]?.map TenantRecord.standing
  tenants : T → s.tenants = t.tenants
  epoch : s.epoch = t.epoch
  policy : s.policy = t.policy
  policyGeneration : s.policyGeneration = t.policyGeneration
  current : s.accounting.current = t.accounting.current

namespace VirtualizationState.Alike

variable {T T' : Prop} {s t u : VirtualizationState}

theorem refl : s.Alike T s := ⟨fun _ _ => rfl, fun _ => rfl, fun _ => rfl, rfl, rfl, rfl, rfl⟩

theorem symm (h : s.Alike T t) : t.Alike T s :=
  ⟨fun k hk => (h.entities k hk).symm, fun id => (h.standing id).symm, fun ht =>
    (h.tenants ht).symm,
    h.epoch.symm, h.policy.symm, h.policyGeneration.symm, h.current.symm⟩

theorem trans (h : s.Alike T t) (h' : t.Alike T u) : s.Alike T u :=
  ⟨fun k hk => (h.entities k hk).trans (h'.entities k hk),
    fun id => (h.standing id).trans (h'.standing id),
    fun ht => (h.tenants ht).trans (h'.tenants ht), h.epoch.trans h'.epoch,
    h.policy.trans h'.policy, h.policyGeneration.trans h'.policyGeneration,
    h.current.trans h'.current⟩

theorem mono (h : s.Alike T t) (hT : T' → T) : s.Alike T' t :=
  { h with tenants := fun ht => h.tenants (hT ht) }

/-- States that differ in nothing but counters and windows. -/
theorem of_entities (he : s.entities = t.entities) (hepoch : s.epoch = t.epoch)
    (hp : s.policy = t.policy) (hg : s.policyGeneration = t.policyGeneration)
    (ha : s.accounting.current = t.accounting.current) : s.Alike T t :=
  have ht : s.tenants = t.tenants := congrFun he .tenant
  ⟨fun k _ => congrFun he k, fun id => by rw [ht], fun _ => ht, hepoch, hp, hg, ha⟩

theorem attachments (h : s.Alike T t) :
    s.accounting.attachmentsActive = t.accounting.attachmentsActive :=
  congrArg (fun c => c.2.1) h.current

theorem ledger (h : s.Alike T t) : s.ledger = t.ledger :=
  ledger_congr (h.entities .assignment (by decide)) (h.entities .virtual (by decide))
    (h.entities .backing (by decide)) (h.entities .migration (by decide))

end VirtualizationState.Alike

/-- A property that does not tell apart states that agree. -/
def VirtualizationState.Respects (T : Prop) (Q : VirtualizationState → Prop) : Prop :=
  ∀ ⦃s t : VirtualizationState⦄, s.Alike T t → Q s → Q t

theorem VirtualizationState.Respects.mono {T T' : Prop} {Q : VirtualizationState → Prop}
    (h : Respects T Q) (hT : T → T') : Respects T' Q := fun _ _ ha => h (ha.mono hT)

namespace Impl

variable {σ : Type} {im : Impl σ}

/-- The state an operation is rolled back to, seen from the one it found. -/
structure Displaced (t s : VirtualizationState) : Prop where
  state : s = { t with
    tenants := s.tenants, nextSequence := s.nextSequence, accounting := s.accounting }
  advanced : t.nextSequence ≤ s.nextSequence
  wellKeyed : s.WellKeyed
  alike : s.Alike False t

/-- A call that did not reach the store. -/
structure Unwritten (im : Impl σ) (r : Impl σ × Except Failure Unit) : Prop where
  store : r.1.store = im.store
  options : r.1.options = im.options
  state : ∃ n, im.state.nextSequence ≤ n ∧ r.1.state = { im.state with nextSequence := n }
  answer : ∀ status, r.2 ≠ .error (.persistence status)

/-- A call that committed `im'`, and that a failed write rolls back to `s`. A tenant of `s` that
is not the one of `im` is listed as changed. -/
structure Written [DurableStore σ] (im s im' : Impl σ) (r : Impl σ × Except Failure Unit) :
    Prop where
  store : s.store = im.store
  options : s.options = im.options
  displaced : Displaced im.state s.state
  tenants : ∀ id, id ∉ im'.changes.ids .tenant → s.state.tenants[id]? = im.state.tenants[id]?
  ready : Ready s im'
  grown : im.state.nextSequence < im'.state.nextSequence
  committed : r.1 = im'.commit.1
  failed : ∀ status, r.2 = .error (.persistence status) ↔ im'.commit.2 = .error status

theorem Unwritten.refl {answer : Except Failure Unit}
    (h : ∀ status, answer ≠ .error (.persistence status)) : Unwritten im (im, answer) :=
  ⟨rfl, rfl, ⟨_, Nat.le_refl _, rfl⟩, h⟩

theorem answered_persistence {α : Type} {outcome : Except Refusal (Accepted α)} {check : Check}
    {status : Status} :
    answered outcome check = .error (.persistence status) ↔ check = .error status := by
  cases check with
  | error status' => simp [answered]
  | ok _ => cases outcome <;> simp [answered]

/-- An operation in the frame commits what its body tracked. -/
theorem written_operation [DurableStore σ] {s : Impl σ} {b : Body σ Unit} {clock : Clock}
    (hstore : s.store = im.store) (hoptions : s.options = im.options)
    (hs : Displaced im.state s.state) (h : Tracks s ∅ (b im.beginOp).1)
    (htenants : ∀ id, id ∉ (b im.beginOp).1.undo.saved .tenant →
      s.state.tenants[id]? = im.state.tenants[id]?) :
    Written im s ((b im.beginOp).1.settle clock (recorded (b im.beginOp).2).1
      (recorded (b im.beginOp).2).2.1 (recorded (b im.beginOp).2).2.2)
      (im.operation clock b) := by
  refine ⟨hstore, hoptions, hs, fun id hid => htenants id ?_, h.ready clock _ _ _, ?_, ?_,
    fun status => ?_⟩
  · rw [(settles _ clock _ _ _).ids, h.listed] at hid
    exact hid
  · rw [(settles _ clock _ _ _).nextSequence]
    exact Nat.lt_of_le_of_lt (hs.advanced.trans h.advanced) (Nat.lt_add_of_pos_right (by decide))
  · rw [operation_eq]
  · rw [operation_eq]
    exact answered_persistence

theorem Displaced.refl {s : VirtualizationState} (h : s.WellKeyed) : Displaced s s :=
  ⟨rfl, Nat.le_refl _, h, .refl⟩

/-! ### Outside the frame -/

theorem classifyMigration_idle {now : UnixMicros} {acc : Impl σ × Bool} {key : MigrationId}
    (h : (classifyMigration now acc key).2 = false) : classifyMigration now acc key = acc := by
  revert h
  simp only [classifyMigration]
  split
  · simp
  · split
    · simp
    · split
      · simp
      · split <;> simp

/-- A classification that found nothing changed nothing. -/
theorem classifyMigrations_idle {now : UnixMicros} {keys : List MigrationId} {acc : Impl σ × Bool}
    (h : (keys.foldl (classifyMigration now) acc).2 = false) :
    keys.foldl (classifyMigration now) acc = acc := by
  induction keys generalizing acc with
  | nil => rfl
  | cons key keys ih =>
    have hk := ih h
    rw [List.foldl_cons] at h ⊢
    rw [hk] at h ⊢
    exact classifyMigration_idle h

variable [DurableStore σ]

theorem registerAgent_cases (im : Impl σ) (clock : Clock) (name endpoint : Text) (connectionId : ℕ)
    (requested : AgentId) :
    Unwritten im (forget (im.registerAgent clock name endpoint connectionId requested)) ∨
    ∃ base session, (base = im ∨ base = im.takeId) ∧
      (im.registerAgent clock name endpoint connectionId requested).1 =
        (base.openSession session).beginOp.touchHeader.commit.1 ∧
      (∀ status, (forget (im.registerAgent clock name endpoint connectionId requested)).2 =
          .error (.persistence status) ↔
        (base.openSession session).beginOp.touchHeader.commit.2 = .error status) ∧
      ∀ status, (forget (im.registerAgent clock name endpoint connectionId requested)).2 ≠
        .error (.refused status) := by
  simp only [registerAgent]
  split
  · exact .inl (.refl fun status => by simp [Except.map])
  split
  · exact .inl (.refl fun status => by simp [Except.map])
  have hbase : (if valid requested then im else im.takeId) = im ∨
      (if valid requested then im else im.takeId) = im.takeId := by
    split
    · exact .inl rfl
    · exact .inr rfl
  generalize (if valid requested then im else im.takeId) = base at hbase ⊢
  generalize (if valid requested then requested else im.nextId) = id
  split
  · left
    obtain rfl | rfl := hbase
    · exact .refl fun status => by simp [Except.map]
    · exact ⟨rfl, rfl, ⟨_, Nat.le_succ _, rfl⟩, fun status => by simp [forget, Except.map]⟩
  · right
    let session : AgentSession := {
      id, boot := base.nextId, name, endpoint, connected := true
      connectedAt := clock.now, lastSeen := clock.now, connectionId }
    refine ⟨base, session, hbase, ?_⟩
    split <;> rename_i hcommit <;> rw [hcommit] <;> simp [forget, Except.map]

/-! ### All operations -/

/-- A refresh of a known device is a registration under the agent it is known through. -/
def resolve (im : Impl σ) : Op → Op
  | .refreshPhysical auth id generation d =>
    match im.state.physical[id]? with
    | some device =>
      if device.generation = generation then .registerPhysical auth device.agent device.boot d
      else .refreshPhysical auth id generation d
    | none => .refreshPhysical auth id generation d
  | op => op

/-- The operations that a failed write does not roll back to the state they found. -/
def displaces (im : Impl σ) : Op → Bool
  | .registerAgent .. => true
  | op => im.transfers op

theorem ledger_of_entities {s t : VirtualizationState} (h : s.entities = t.entities) :
    s.ledger = t.ledger :=
  ledger_congr (congrFun h .assignment) (congrFun h .virtual) (congrFun h .backing)
    (congrFun h .migration)

omit [DurableStore σ] in
/-- Recording an outcome changes nothing but counters and identities. -/
theorem alike_settle {T : Prop} (clock : Clock) (context : OpContext) (status : Status)
    (kind : AuditKind) : im.state.Alike T (im.settle clock context status kind).state :=
  have hs := settles im clock context status kind
  .symm (.of_entities hs.entities hs.epoch hs.policy hs.policyGeneration hs.current)

/-- A call that committed: what its body did to the state, what a failed write rolls back to, and
what is entered into the windows. -/
def Commits (Q : VirtualizationState → Prop) (im : Impl σ) (op : Op)
    (r : Impl σ × Except Failure Unit) : Prop :=
  ∃ s im', Written im s im' r ∧ Q im'.state ∧ (s.state = im.state ↔ im.displaces op = false) ∧
    (im.transfers op = false → s.state.tenants = im.state.tenants) ∧
    im'.changes.Enters op.reported op.request

variable {Q : VirtualizationState → Prop} {clock : Clock} {op : Op}

/-- An operation that resolves to one with a body runs it. -/
theorem exec_of_resolve {b : Body σ Unit} (hb : body clock (im.resolve op) = some b) :
    im.exec clock op = im.operation clock b := by
  cases op
  case refreshPhysical auth id generation d =>
    simp only [resolve] at hb
    split at hb
    · rename_i device hd
      split at hb
      · rename_i hg
        cases hb
        simp only [exec, refreshPhysical, hd, hg, ne_eq, not_true, if_false]
        exact operation_forget clock _
      · cases hb
    · cases hb
  all_goals exact exec_of_body hb

omit [DurableStore σ] in
theorem request_resolve : (im.resolve op).request = op.request := by
  cases op <;> try rfl
  simp only [resolve]
  split
  · split <;> rfl
  · rfl

omit [DurableStore σ] in
theorem displaces_resolve {b : Body σ Unit} (hb : body clock (im.resolve op) = some b) :
    im.displaces op = im.transfers (im.resolve op) := by
  cases op <;> try rfl
  · cases hb
  · simp only [resolve]
    split
    · split <;> rfl
    · rfl

omit [DurableStore σ] in
/-- An operation that runs a body records its outcome. -/
theorem reported_resolve {b : Body σ Unit} (hb : body clock (im.resolve op) = some b) :
    op.reported = true := by
  cases op <;> try rfl
  cases hb

omit [DurableStore σ] in
theorem transfers_resolve : im.transfers op = im.transfers (im.resolve op) := by
  cases op <;> try rfl
  simp only [resolve]
  split
  · split <;> rfl
  · rfl

/-- An operation that runs a body commits what the body tracked. Only the tenants can be others than
before in what a failed write rolls back to. -/
theorem written_body {b : Body σ Unit} (hw : im.state.WellKeyed)
    (hb : body clock (im.resolve op) = some b) :
    ∃ s, Written im s ((b im.beginOp).1.settle clock (recorded (b im.beginOp).2).1
        (recorded (b im.beginOp).2).2.1 (recorded (b im.beginOp).2).2.2) (im.operation clock b) ∧
      (s.state = im.state ↔ im.displaces op = false) ∧
      (im.transfers op = false → s.state.tenants = im.state.tenants) ∧
      ((b im.beginOp).1.settle clock (recorded (b im.beginOp).2).1
        (recorded (b im.beginOp).2).2.1 (recorded (b im.beginOp).2).2.2).changes.Enters
          op.reported op.request := by
  obtain ⟨m, hm, hmw, hiff, hmt, hms⟩ := tracks_body hb hw
  have halike : (im.withTenants m).state.Alike False im.state := by
    refine ⟨fun k hk => ?_, hms, by rintro ⟨⟩, rfl, rfl, rfl, rfl⟩
    cases k <;> first | rfl | exact absurd rfl hk
  refine ⟨im.withTenants m, written_operation rfl rfl ⟨rfl, Nat.le_refl _, hmw, halike⟩ hm hmt,
    ?_, ?_, ?_⟩
  · rw [displaces_resolve hb, ← hiff]
    exact ⟨congrArg VirtualizationState.tenants, fun h => by rw [h]; rfl⟩
  · rw [transfers_resolve, ← hiff]
    exact id
  · have hrequest : (im.resolve op).request = op.request := request_resolve
    rw [reported_resolve hb, ← hrequest, ← request_body im.beginOp hb]
    exact hm.enters clock _ _ _

/-- An operation that runs a body commits. -/
theorem commits_operation (hq : Respects True Q) {b : Body σ Unit} (hw : im.state.WellKeyed)
    (hb : body clock (im.resolve op) = some b) (hQ : Q (b im.beginOp).1.state) :
    Commits Q im op (im.operation clock b) := by
  obtain ⟨s, hwritten, hiff, htenants, henters⟩ := written_body hw hb
  exact ⟨s, _, hwritten, hq (alike_settle clock _ _ _) hQ, hiff, htenants, henters⟩

/-- A session that is opened over identities that were taken for it. -/
theorem written_openSession {base : Impl σ} {session : AgentSession}
    {r : Impl σ × Except Failure Unit} (hw : im.state.WellKeyed)
    (hbase : base = im ∨ base = im.takeId)
    (hcommit : r.1 = (base.openSession session).beginOp.touchHeader.commit.1)
    (hfailed : ∀ status, r.2 = .error (.persistence status) ↔
      (base.openSession session).beginOp.touchHeader.commit.2 = .error status) :
    Written im (base.openSession session) (base.openSession session).beginOp.touchHeader r := by
  have hlt : im.state.nextSequence < (base.openSession session).state.nextSequence := by
    obtain rfl | rfl := hbase
    · exact Nat.lt_add_one _
    · exact Nat.lt_add_of_pos_right Nat.two_pos
  have hentities : (base.openSession session).state.entities = im.state.entities := by
    obtain rfl | rfl := hbase <;> rfl
  have hs : (base.openSession session).state.WellKeyed := hw.advance hentities hlt.le
  have halike : (base.openSession session).state.Alike False im.state := by
    obtain rfl | rfl := hbase <;> exact .of_entities hentities rfl rfl rfl rfl
  have htenants : (base.openSession session).state.tenants = im.state.tenants :=
    congrFun hentities .tenant
  refine ⟨?_, ?_, ⟨?_, hlt.le, hs, halike⟩, fun id _ => by rw [htenants], ready_touchHeader hs, hlt,
    hcommit, hfailed⟩ <;> obtain rfl | rfl := hbase <;> rfl

theorem commits_registerAgent (hq : Respects True Q) {name endpoint : Text} {connectionId : ℕ}
    {requested : AgentId} (hw : im.state.WellKeyed) (hQ : Q im.state) :
    Unwritten im (im.exec clock (.registerAgent name endpoint connectionId requested)) ∨
      Commits Q im (.registerAgent name endpoint connectionId requested)
        (im.exec clock (.registerAgent name endpoint connectionId requested)) := by
  obtain h | ⟨base, session, hbase, hcommit, hfailed, -⟩ :=
    registerAgent_cases im clock name endpoint connectionId requested
  · exact .inl h
  · right
    have hwritten := written_openSession hw hbase hcommit hfailed
    have halike : (base.openSession session).state.Alike True im.state := by
      obtain rfl | rfl := hbase <;> exact .of_entities rfl rfl rfl rfl rfl
    have htenants : (base.openSession session).state.tenants = im.state.tenants := by
      obtain rfl | rfl := hbase <;> rfl
    have hmoved : (base.openSession session).state ≠ im.state := fun h =>
      absurd (congrArg VirtualizationState.nextSequence h) hwritten.grown.ne'
    exact ⟨base.openSession session, _, hwritten, hq halike.symm hQ,
      iff_of_false hmoved (by simp [displaces]), fun _ => htenants, rfl, rfl, rfl⟩

/-- The migrations of a runtime, classified. -/
def classified (im : Impl σ) (now : UnixMicros) : Impl σ × Bool :=
  im.beginOp.state.migrations.keys.foldl (classifyMigration now) (im.beginOp, false)

theorem commits_classify (hq : Respects True Q) (hw : im.state.WellKeyed)
    (hQ : Q (im.classified clock.now).1.state) :
    Unwritten im (im.exec clock .classifyRecoveredMigrations) ∨
      Commits Q im .classifyRecoveredMigrations (im.exec clock .classifyRecoveredMigrations) := by
  have ht : Tracks im ∅ (im.classified clock.now).1 :=
    Tracks.classifyMigrations clock.now (Tracks.beginOp hw) _
  unfold classified at ht hQ
  simp only [exec, classifyRecoveredMigrations]
  split
  · rename_i im' hacc
    obtain rfl : im.beginOp = im' :=
      congrArg Prod.fst ((classifyMigrations_idle (congrArg Prod.snd hacc)).symm.trans hacc)
    exact .inl ⟨rfl, rfl, ⟨_, Nat.le_refl _, rfl⟩, fun status => by simp⟩
  · rename_i im' hacc
    rw [hacc] at ht hQ
    let context : OpContext := {
      operation := txt "classify_recovered_migrations", epoch := im.beginOp.state.epoch }
    have hgrown := (settles im'.touchHeader clock context {} .recovery).nextSequence
    refine .inr ⟨im, im'.touchHeader.settle clock context {} .recovery,
      ⟨rfl, rfl, .refl hw, fun _ _ => rfl, ht.touchHeader.ready clock _ _ _, ?_, ?_,
        fun status => ?_⟩, hq (alike_settle clock context {} .recovery) hQ,
      iff_of_true rfl rfl, fun _ => rfl, ht.touchHeader.enters clock context _ _⟩
    · rw [hgrown]
      exact Nat.lt_of_le_of_lt ht.advanced (Nat.lt_add_of_pos_right (by decide))
    · rw [finalize_eq]
      split <;> rename_i hcommit <;> rw [hcommit]
    · rw [finalize_eq]
      split <;> rename_i hcommit <;> rw [hcommit] <;> simp

omit [DurableStore σ] in
theorem unwritten_agentHeartbeat (id : AgentId) (boot : AgentBootId) :
    Unwritten im (im.agentHeartbeat clock id boot) := by
  unfold agentHeartbeat
  split
  · exact .refl fun status => by simp
  · split
    · exact .refl fun status => by simp
    · split
      · exact .refl fun status => by simp
      · exact ⟨rfl, rfl, ⟨_, Nat.le_refl _, rfl⟩, fun status => by simp⟩

omit [DurableStore σ] in
theorem unwritten_agentDisconnected (id : AgentId) (boot : AgentBootId) :
    Unwritten im (im.agentDisconnected id boot) := by
  unfold agentDisconnected
  split
  · exact .refl fun status => by simp
  · split
    · exact .refl fun status => by simp
    · exact ⟨rfl, rfl, ⟨_, Nat.le_refl _, rfl⟩, fun status => by simp⟩

/-- A refresh of a device that is not known in that generation. -/
theorem unwritten_refreshPhysical {auth : Authority} {id : PhysicalDeviceId}
    {generation : Generation} {d : PhysicalDeviceDescriptor}
    (hb : body (σ := σ) clock (im.resolve (.refreshPhysical auth id generation d)) = none) :
    Unwritten im (im.exec clock (.refreshPhysical auth id generation d)) := by
  simp only [exec, refreshPhysical]
  simp only [resolve] at hb
  split
  · exact .refl fun status => by simp [Except.map]
  · rename_i device hd
    split
    · exact .refl fun status => by simp [Except.map]
    · rename_i hg
      simp only [hd, not_not.mp hg, if_true] at hb
      cases hb

/-- What an operation can do to a state: nothing, or what its body or the classification of the
migrations does. -/
structure Does (Q : VirtualizationState → Prop) (im : Impl σ) (clock : Clock) (op : Op) : Prop where
  idle : Q im.state
  body : ∀ b : Body σ Unit, body clock (im.resolve op) = some b → Q (b im.beginOp).1.state
  classified : op = .classifyRecoveredMigrations → Q (im.classified clock.now).1.state

/-- Every operation stays away from the store or commits. -/
theorem exec_cases (hq : Respects True Q) (hw : im.state.WellKeyed) (h : Does Q im clock op) :
    Unwritten im (im.exec clock op) ∨ Commits Q im op (im.exec clock op) := by
  cases hb : body (σ := σ) clock (im.resolve op) with
  | some b =>
    rw [exec_of_resolve hb]
    exact .inr (commits_operation hq hw hb (h.body b hb))
  | none =>
    cases op
    case registerAgent => exact commits_registerAgent hq hw h.idle
    case classifyRecoveredMigrations => exact commits_classify hq hw (h.classified rfl)
    case agentHeartbeat => exact .inl (unwritten_agentHeartbeat _ _)
    case agentDisconnected => exact .inl (unwritten_agentDisconnected _ _)
    case refreshPhysical => exact .inl (unwritten_refreshPhysical hb)
    all_goals cases hb

/-- An operation without a body that is refused did not reach the store. -/
theorem unwritten_of_refused {status : Status} (hb : body (σ := σ) clock (im.resolve op) = none)
    (hr : (im.exec clock op).2 = .error (.refused status)) : Unwritten im (im.exec clock op) := by
  cases op
  case registerAgent name endpoint connectionId requested =>
    obtain h | ⟨base, session, -, -, -, hne⟩ :=
      registerAgent_cases im clock name endpoint connectionId requested
    · exact h
    · exact absurd hr (hne status)
  case classifyRecoveredMigrations =>
    simp only [exec, classifyRecoveredMigrations] at hr
    split at hr
    · cases hr
    · split at hr <;> cases hr
  case agentHeartbeat => exact unwritten_agentHeartbeat _ _
  case agentDisconnected => exact unwritten_agentDisconnected _ _
  case refreshPhysical => exact unwritten_refreshPhysical hb
  all_goals cases hb

end Impl

end AcceleratorVirtualization
