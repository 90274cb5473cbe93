import AcceleratorVirtualization.Invariants.Demands
import AcceleratorVirtualization.Invariants.Generations
import AcceleratorVirtualization.Invariants.Standing

/-!
# The histories of the backings

A virtual accelerator keeps an entry for every assignment it was bound by. Along every run the
entries are in order, by the generation of the backing and by the assignment, and the last one is
current and names the assignment that has authority, if there is one. At most one entry is current
as long as nothing is assigned to a virtual accelerator whose history has a current entry: an
assignment, unlike a replacement or a migration, closes none, and a binding may be lost without its
entry being closed.
-/

namespace AcceleratorVirtualization

open VirtualizationState Handover Leasing Custody Revision

/-! ### Histories -/

/-- An entry of an earlier generation of the backing and of an earlier assignment. -/
def BackingHistoryEntry.Precedes (e e' : BackingHistoryEntry) : Prop :=
  e.backingGeneration < e'.backingGeneration ∧ e.assignment < e'.assignment

/-- The entries in order. -/
abbrev InOrder (history : List BackingHistoryEntry) : Prop :=
  history.Pairwise BackingHistoryEntry.Precedes

/-- How many entries are current. -/
def currents (history : List BackingHistoryEntry) : ℕ := history.countP (·.current)

/-- A change of entries that keeps what they are about, and makes none current. -/
structure Closes (f : BackingHistoryEntry → BackingHistoryEntry) : Prop where
  assignment : ∀ e, (f e).assignment = e.assignment
  backingGeneration : ∀ e, (f e).backingGeneration = e.backingGeneration
  current : ∀ e, (f e).current = true → e.current = true

section Histories

variable {f : BackingHistoryEntry → BackingHistoryEntry} {history : List BackingHistoryEntry}
variable {e e' : BackingHistoryEntry}

theorem Closes.precedes (hf : Closes f) : (f e).Precedes e' ↔ e.Precedes e' := by
  rw [BackingHistoryEntry.Precedes, hf.assignment, hf.backingGeneration,
    BackingHistoryEntry.Precedes]

theorem InOrder.map (hf : Closes f) (h : InOrder history) : InOrder (history.map f) := by
  refine List.pairwise_map.mpr (h.imp fun {e e'} hlt => ?_)
  rw [hf.precedes, BackingHistoryEntry.Precedes, hf.assignment, hf.backingGeneration]
  exact hlt

theorem InOrder.append (h : InOrder history) (hlast : ∀ e ∈ history, e.Precedes e') :
    InOrder (history ++ [e']) := by
  refine List.pairwise_append.mpr ⟨h, List.pairwise_singleton .., fun e he a ha => ?_⟩
  rw [List.mem_singleton.mp ha]
  exact hlast e he

/-- No assignment comes after the one of the last entry. -/
theorem InOrder.le_last (h : InOrder (history ++ [e'])) (he : e ∈ history ++ [e']) :
    e.assignment ≤ e'.assignment := by
  obtain he | he := List.mem_append.mp he
  · exact ((List.pairwise_append.mp h).2.2 e he e' (List.mem_singleton_self e')).2.le
  · rw [List.mem_singleton.mp he]

theorem currents_map_le (hf : Closes f) (history : List BackingHistoryEntry) :
    currents (history.map f) ≤ currents history := by
  rw [currents, List.countP_map]
  exact List.countP_mono_left fun e _ => hf.current e

theorem currents_append (h : ∀ e ∈ history, (f e).current = false) :
    currents (history.map f ++ [e']) ≤ 1 := by
  have hnone : currents (history.map f) = 0 := by
    rw [currents, List.countP_map, List.countP_eq_zero]
    intro e he
    simp [h e he]
  rw [currents, List.countP_append, ← currents, hnone, Nat.zero_add]
  exact List.countP_le_length

/-- Suspension, and what closes entries for good. -/
theorem closes_mark (to_ : BackingHistoryEntry → UnixMicros) :
    Closes fun e => { e with current := false, to_ := to_ e } :=
  ⟨fun _ => rfl, fun _ => rfl, fun _ hc => absurd hc Bool.false_ne_true⟩

end Histories

/-! ### What becomes of one history -/

/-- A new binding, with an entry for it. If `strict`, no other entry stays current. -/
structure Opened (strict : Prop) (f : BackingHistoryEntry → BackingHistoryEntry)
    (e : BackingHistoryEntry) (v v' : VirtualAcceleratorRecord) : Prop where
  closes : Closes f
  history : v'.backingHistory = v.backingHistory.map f ++ [e]
  current : e.current = true
  assignment : e.assignment = v'.assignment
  known : v'.assignment ≠ 0
  backing : e.backing = v'.backing
  backingGeneration : e.backingGeneration = v'.backingGeneration
  later : ∀ e' ∈ v.backingHistory, e'.Precedes e
  alone : strict → ∀ e' ∈ v.backingHistory, (f e').current = false

/-- The history stays, with the binding or after it; or the binding is given up and the entries are
closed; or there is a new binding. -/
inductive Inherited (strict : Prop) (v v' : VirtualAcceleratorRecord) : Prop
  | kept (h : v'.backingHistory = v.backingHistory)
      (hp : v'.assignment = 0 ∨ v'.assignment = v.assignment)
  | closed {f : BackingHistoryEntry → BackingHistoryEntry} (hf : Closes f)
      (h : v'.backingHistory = v.backingHistory.map f) (hp : v'.assignment = 0)
  | opened {f : BackingHistoryEntry → BackingHistoryEntry} {e : BackingHistoryEntry}
      (h : Opened strict f e v v')

/-- The histories are in order; no entry is of a later generation than its virtual accelerator, or
of an unknown assignment; the last one is of the assignment that has authority. If `strict`, at most
one entry is current. -/
structure VirtualizationState.Lineal (strict : Prop) (s : VirtualizationState) : Prop where
  paced : s.Paced
  pledged : s.Pledged (· < ·)
  inOrder : ∀ (x : VirtualAcceleratorId) (v : VirtualAcceleratorRecord),
    s.virtuals[x]? = some v → InOrder v.backingHistory
  bounded : ∀ (x : VirtualAcceleratorId) (v : VirtualAcceleratorRecord),
    s.virtuals[x]? = some v → ∀ e ∈ v.backingHistory,
      e.backingGeneration ≤ v.backingGeneration ∧ e.assignment ∈ s.assignments
  named : ∀ (x : VirtualAcceleratorId) (v : VirtualAcceleratorRecord),
    s.virtuals[x]? = some v → s.ledger.Holds v.assignment x → ∃ earlier e,
      v.backingHistory = earlier ++ [e] ∧ e.current = true ∧ e.assignment = v.assignment ∧
        e.backing = v.backing
  alone : strict → ∀ (x : VirtualAcceleratorId) (v : VirtualAcceleratorRecord),
    s.virtuals[x]? = some v → currents v.backingHistory ≤ 1

/-- Whether an operation binds a virtual accelerator. -/
def Op.binding : Op → Bool
  | .assignBacking .. | .replaceBacking .. | .commitMigration .. => true
  | _ => false

namespace Impl

variable {σ : Type} {im im' : Impl σ} {strict : Prop}

/-- What becomes of all histories; a new virtual accelerator has none. -/
def Descends (strict : Prop) (im im' : Impl σ) : Prop :=
  ∀ (x : VirtualAcceleratorId) (v' : VirtualAcceleratorRecord),
    im'.state.virtuals[x]? = some v' →
      (im.state.virtuals[x]? = none ∧ v'.backingHistory = [] ∧ v'.assignment = 0) ∨
      ∃ v, im.state.virtuals[x]? = some v ∧ Inherited strict v v'

/-! ### One step -/

/-- The assignment through which a virtual accelerator has authority is of the backing it is bound
to. -/
theorem assignment_of_holds (hc : im.ledger.Coherent) {x : VirtualAcceleratorId}
    {v : VirtualAcceleratorRecord} (hv : im.state.virtuals[x]? = some v)
    (h : im.ledger.Holds v.assignment x) :
    ∃ a, im.state.assignments[v.assignment]? = some a ∧ a.backing = v.backing := by
  obtain ⟨r, hr, hauth, rfl⟩ := h
  have hpointed := hc.pointed _ r hr hauth
  rw [party_of_virtual hv, Option.some.injEq, Pointer.mk.injEq] at hpointed
  simp only [ledger, VirtualizationState.ledger, Option.map_eq_some_iff] at hr
  obtain ⟨a, ha, rfl⟩ := hr
  exact ⟨a, ha, (ref_eq_some.mp hpointed.2).1.symm⟩

/-- An assignment its virtual accelerator already pointed to has gained no authority. -/
theorem holds_before (hc : im.state.Consistent)
    (hstage : ∀ g a, im.register.stage g = some a →
      ∃ a', im'.register.stage g = some a' ∧ a.rank ≤ a'.rank)
    {x : VirtualAcceleratorId} {v : VirtualAcceleratorRecord}
    (hv : im.state.virtuals[x]? = some v) (h0 : v.assignment ≠ 0)
    (h : im'.ledger.Holds v.assignment x) : im.ledger.Holds v.assignment x := by
  obtain ⟨r, hr, hparty, -⟩ := hc.coherent.owned x _ _ (party_of_virtual hv) (ref_of_ne h0)
  have hgrant := hr
  simp only [VirtualizationState.ledger, Option.map_eq_some_iff] at hgrant
  obtain ⟨a, ha, rfl⟩ := hgrant
  have hold := stage_of_assignment ha
  have hprepared := hc.pointed x _ (seat_of_virtual hv)
  change im.register.stage v.assignment ≠ _ at hprepared
  obtain ⟨a', ha', hle⟩ := hstage _ _ hold
  rw [stage_of_holds h, Option.some.injEq] at ha'
  subst ha'
  rw [hold, ne_eq, Option.some.injEq] at hprepared
  refine ⟨a.toGrant, hr, ?_, hparty⟩
  change a.authoritative = true
  revert hle hprepared
  rw [BackingAssignment.stage]
  split
  · rename_i hauth
    exact fun _ _ => hauth
  · split
    · exact fun hne _ => absurd rfl hne
    · exact fun _ hle => absurd hle (by decide)

/-- A step that keeps the assignments, revises the virtual accelerators and carries their histories
on. -/
theorem lineal_of_step {t : Terms} (h : im.state.Lineal strict)
    (hzero : im'.ledger.grant 0 = none) (hp : im'.state.Paced) (hs : im'.state.Pledged (· < ·))
    (hd : Descends strict im im')
    (hv : Course t im im')
    (hgrade : ∀ g a, im.fixtures.grade g = some a → im'.fixtures.grade g = some a)
    (hstage : ∀ g a, im.register.stage g = some a →
      ∃ a', im'.register.stage g = some a' ∧ a.rank ≤ a'.rank) : im'.state.Lineal strict where
  paced := hp
  pledged := hs
  inOrder x v' hv' := by
    obtain ⟨-, hnil, -⟩ | ⟨v, hv0, ⟨hh, -⟩ | ⟨hf, hh, -⟩ | hopened⟩ := hd x v' hv'
    · rw [hnil]
      exact List.Pairwise.nil
    · rw [hh]
      exact h.inOrder x v hv0
    · rw [hh]
      exact (h.inOrder x v hv0).map hf
    · rw [hopened.history]
      refine ((h.inOrder x v hv0).map hopened.closes).append fun e he => ?_
      obtain ⟨e0, he0, rfl⟩ := List.mem_map.mp he
      exact hopened.closes.precedes.mpr (hopened.later e0 he0)
  bounded x v' hv' := by
    have hknown : ∀ g, g ∈ im.state.assignments → g ∈ im'.state.assignments := by
      intro g hg
      obtain ⟨a, ha⟩ := Option.isSome_iff_exists.mp (Std.ExtTreeMap.mem_iff_isSome_getElem?.mp hg)
      have hsome : im.fixtures.grade g = some a.grade := by
        simp [fixtures, VirtualizationState.fixtures, ha]
      obtain ⟨a', ha', -⟩ := Option.map_eq_some_iff.mp (hgrade g _ hsome)
      exact Std.ExtTreeMap.mem_iff_isSome_getElem?.mpr (by rw [ha']; rfl)
    have hlater : ∀ v, im.state.virtuals[x]? = some v →
        v.backingGeneration ≤ v'.backingGeneration := by
      intro v hv0
      obtain ⟨w, hw, hrevised⟩ := hv.kept x v hv0
      obtain rfl := Option.some.inj (hv'.symm.trans hw)
      exact hrevised.backingGeneration
    have hmapped : ∀ v f, im.state.virtuals[x]? = some v → Closes f →
        ∀ e ∈ v.backingHistory.map f,
          e.backingGeneration ≤ v'.backingGeneration ∧ e.assignment ∈ im'.state.assignments := by
      intro v f hv0 hf e he
      obtain ⟨e0, he0, rfl⟩ := List.mem_map.mp he
      obtain ⟨hle, hmem⟩ := h.bounded x v hv0 e0 he0
      rw [hf.backingGeneration, hf.assignment]
      exact ⟨hle.trans (hlater v hv0), hknown _ hmem⟩
    obtain ⟨-, hnil, -⟩ | ⟨v, hv0, ⟨hh, -⟩ | ⟨hf, hh, -⟩ | hopened⟩ := hd x v' hv'
    · rw [hnil]
      exact fun e he => absurd he List.not_mem_nil
    · rw [hh]
      intro e he
      obtain ⟨hle, hmem⟩ := h.bounded x v hv0 e he
      exact ⟨hle.trans (hlater v hv0), hknown _ hmem⟩
    · rw [hh]
      exact hmapped v _ hv0 hf
    · rw [hopened.history]
      intro e he
      obtain he | he := List.mem_append.mp he
      · exact hmapped v _ hv0 hopened.closes e he
      · rw [List.mem_singleton.mp he, hopened.backingGeneration, hopened.assignment]
        have hparty : im'.ledger.party x = some v'.toPointer := party_of_virtual hv'
        obtain ⟨r, hr, -⟩ := hp.consistent.coherent.owned x _ _ hparty (ref_of_ne hopened.known)
        simp only [VirtualizationState.ledger, Option.map_eq_some_iff] at hr
        obtain ⟨a, ha, -⟩ := hr
        exact ⟨le_rfl, Std.ExtTreeMap.mem_iff_isSome_getElem?.mpr (by rw [ha]; rfl)⟩
  named x v' hv' hheld := by
    have h0 : v'.assignment ≠ 0 := by
      intro h0
      obtain ⟨r, hr, -⟩ := h0 ▸ hheld
      exact absurd (hzero.symm.trans hr) (by simp)
    obtain ⟨-, -, hp0⟩ | ⟨v, hv0, ⟨hh, hp0⟩ | ⟨-, -, hp0⟩ | hopened⟩ := hd x v' hv'
    · exact absurd hp0 h0
    · have hsame := hp0.resolve_left h0
      have hheld0 : im.ledger.Holds v.assignment x :=
        holds_before h.paced.consistent hstage hv0 (hsame ▸ h0) (hsame ▸ hheld)
      obtain ⟨earlier, e, hhistory, hcurrent, hassignment, hbacking⟩ := h.named x v hv0 hheld0
      refine ⟨earlier, e, hh.trans hhistory, hcurrent, hassignment.trans hsame.symm,
        hbacking.trans ?_⟩
      -- both are the backing of the assignment
      obtain ⟨a, ha, hab⟩ := assignment_of_holds h.paced.consistent.coherent hv0 hheld0
      obtain ⟨a', ha', hab'⟩ := assignment_of_holds hp.consistent.coherent hv' hheld
      have hg : im'.fixtures.grade v.assignment = some a.grade := by
        refine hgrade _ _ ?_
        simp [fixtures, VirtualizationState.fixtures, ha]
      simp only [fixtures, VirtualizationState.fixtures, ← hsame, ha', Option.map_some,
        Option.some.injEq] at hg
      rw [← hab, ← hab']
      exact (congrArg BackingAssignment.backing hg).symm
    · exact absurd hp0 h0
    · exact ⟨_, _, hopened.history, hopened.current, hopened.assignment, hopened.backing⟩
  alone hstrict x v' hv' := by
    obtain ⟨-, hnil, -⟩ | ⟨v, hv0, ⟨hh, -⟩ | ⟨hf, hh, -⟩ | hopened⟩ := hd x v' hv'
    · rw [hnil]
      exact Nat.zero_le 1
    · rw [hh]
      exact h.alone hstrict x v hv0
    · rw [hh]
      exact (currents_map_le hf _).trans (h.alone hstrict x v hv0)
    · rw [hopened.history]
      exact currents_append (hopened.alone hstrict)

/-! ### Ways to descend -/

section Ways

/-- The pointers stay, or point nowhere. -/
def Points (im im' : Impl σ) : Prop :=
  ∀ (x : VirtualAcceleratorId) (q' : Seat ℕ ℕ Phase), im'.book.seat x = some q' →
    q'.phase.assignment = 0 ∨
      ∃ q, im.book.seat x = some q ∧ q'.phase.assignment = q.phase.assignment

theorem Points.of_party (h : ∀ x p', im'.ledger.party x = some p' → p'.grant = none ∨
    ∃ p, im.ledger.party x = some p ∧ p'.grant = p.grant) : Points im im' := by
  intro x q' hq'
  obtain hnone | ⟨p, hp, hgrant⟩ := h x _ (party_of_seat hq')
  · exact .inl (ref_inj hnone)
  · obtain ⟨q, hq, rfl⟩ := seat_of_party hp
    exact .inr ⟨q, hq, ref_inj hgrant⟩

theorem Points.of_ledger (h : im'.ledger.party = im.ledger.party) : Points im im' :=
  .of_party fun _ p' hp' => .inr ⟨p', h ▸ hp', rfl⟩

theorem Points.assignment (h : Points im im') {x : VirtualAcceleratorId}
    {v' : VirtualAcceleratorRecord} (hv' : im'.state.virtuals[x]? = some v') :
    v'.assignment = 0 ∨
      ∃ v, im.state.virtuals[x]? = some v ∧ v'.assignment = v.assignment := by
  refine (h x _ (seat_of_virtual hv')).imp_right ?_
  rintro ⟨q, hq, hsame⟩
  obtain ⟨v, hv, rfl⟩ := virtual_of_seat hq
  exact ⟨v, hv, hsame⟩

theorem history_of_virtual {x : VirtualAcceleratorId} {v : VirtualAcceleratorRecord}
    (h : im.state.virtuals[x]? = some v) : im.dossier.history x = some v.backingHistory := by
  simp [dossier, VirtualizationState.dossier, h]

/-- The histories stay, or are new and empty. -/
theorem descends_of_points (hh : ∀ x, im'.dossier.history x = im.dossier.history x ∨
      im.state.virtuals[x]? = none ∧ im'.dossier.history x = some [])
    (hp : Points im im') : Descends strict im im' := by
  intro x v' hv'
  have hhistory := history_of_virtual hv'
  obtain hsame | ⟨hnone, hnil⟩ := hh x
  · rw [hsame] at hhistory
    obtain ⟨v, hv, heq⟩ := Option.map_eq_some_iff.mp hhistory
    refine .inr ⟨v, hv, .kept heq.symm ((hp.assignment hv').imp_right ?_)⟩
    rintro ⟨w, hw, hassignment⟩
    obtain rfl := Option.some.inj (hv.symm.trans hw)
    exact hassignment
  · refine .inl ⟨hnone, Option.some.inj (hhistory.symm.trans hnil), ?_⟩
    refine (hp.assignment hv').resolve_right ?_
    rintro ⟨w, hw, -⟩
    exact absurd (hnone.symm.trans hw) nofun

theorem Descends.refl : Descends strict im im :=
  descends_of_points (fun _ => .inl rfl) (.of_ledger rfl)

/-- A virtual accelerator gives up its binding, and the entries of its history are closed. -/
theorem descends_of_released {id : VirtualAcceleratorId}
    {f : BackingHistoryEntry → BackingHistoryEntry} (hf : Closes f)
    (hd : im'.dossier = im.dossier.revise id (List.map f))
    (hp : im'.ledger.party =
      Function.update im.ledger.party id ((im.ledger.party id).map fun _ => released)) :
    Descends strict im im' := by
  intro x v' hv'
  have hhistory := history_of_virtual hv'
  have hparty := party_of_virtual hv'
  rw [hd] at hhistory
  rw [hp] at hparty
  obtain rfl | hx := eq_or_ne x id
  · rw [Dossier.history_revise_self] at hhistory
    rw [Function.update_self] at hparty
    obtain ⟨history, hold, hclosed⟩ := Option.map_eq_some_iff.mp hhistory
    obtain ⟨v, hv, rfl⟩ := Option.map_eq_some_iff.mp hold
    obtain ⟨-, -, hreleased⟩ := Option.map_eq_some_iff.mp hparty
    exact .inr ⟨v, hv, .closed hf hclosed.symm (ref_inj (congrArg Pointer.grant hreleased).symm)⟩
  · rw [Dossier.history_revise_of_ne hx] at hhistory
    rw [Function.update_of_ne hx] at hparty
    obtain ⟨v, hv, hsame⟩ := Option.map_eq_some_iff.mp hhistory
    rw [party_of_virtual hv, Option.some.injEq] at hparty
    exact .inr ⟨v, hv, .kept hsame.symm (.inr (ref_inj (congrArg Pointer.grant hparty).symm))⟩

/-- One virtual accelerator is changed. -/
theorem descends_of_amends {id : VirtualAcceleratorId}
    {R : VirtualAcceleratorRecord → VirtualAcceleratorRecord → Prop} (h : Amends id R im im')
    (hR : ∀ v v', im.state.virtuals[id]? = some v → im'.state.virtuals[id]? = some v' →
      R v v' → Inherited strict v v') : Descends strict im im' := by
  intro x v' hv'
  obtain rfl | hx := eq_or_ne x id
  · cases hv : im.state.virtuals[x]? with
    | none =>
      have hentry := h.entry
      rw [virtualRecord, virtualRecord, hv, hv'] at hentry
      cases hentry
    | some v =>
      obtain ⟨w, hw, hr⟩ := At.some h hv
      obtain rfl := Option.some.inj (hv'.symm.trans hw)
      exact .inr ⟨v, rfl, hR v v' hv hv' hr⟩
  · have hsame : im.state.virtuals[x]? = some v' := (h.other x hx).symm.trans hv'
    exact .inr ⟨v', hsame, .kept rfl (.inr rfl)⟩

end Ways

/-! ### The operations that bind -/

section Bindings

variable {auth : Authority} {clock : Clock}

/-- What is assigned to a virtual accelerator has a fresh identity and the next generation. -/
theorem descends_assignBackingAct (hw : im.state.WellKeyed) (h : im.state.Lineal strict)
    {operation : String} {backing : BackingId} {replacing : Bool} {reason : Text}
    {plan : Owned × BackingRecord}
    (hok : assignBackingCheck auth backing replacing im = .ok plan)
    (halone : strict → replacing = false →
      ∀ e ∈ plan.1.record.backingHistory, e.current = false) :
    Descends strict im
      (assignBackingAct operation auth backing replacing reason clock plan im.beginOp).1 := by
  obtain ⟨ho, hb, -⟩ := assignBackingCheck_ok hok
  have ht : Tracks im.beginOp ∅ im.beginOp := .beginOp hw
  obtain ⟨n, hn, hledger⟩ := ledger_assignBackingAct ht operation auth replacing reason clock ho hb
  have hamends := @amends_assignBackingAct σ im.beginOp auth clock reason operation backing
    replacing plan
  generalize (assignBackingAct operation auth backing replacing reason clock plan im.beginOp).1 =
    im1 at hledger hamends ⊢
  replace hamends := hamends.congr_left (show im.beginOp.virtualRecord = im.virtualRecord from rfl)
  refine descends_of_amends hamends fun v v' hv hv' hr => ?_
  obtain rfl := Option.some.inj (ho.virtual.symm.trans hv)
  obtain ⟨w, a, _, _, e, -, hhistory, hg, hea, heb, heg, hec, s, m, rfl⟩ := hr
  -- the ledger knows the identity of the assignment
  have hfresh : a.id = n ∧ a.id ≠ 0 := by
    have hparty := party_of_virtual hv'
    rw [hledger] at hparty
    have hknown : im.ledger.party plan.1.virtualId = some plan.1.record.toPointer :=
      party_of_virtual hv
    have hpoint : ∀ L : Ledger ℕ ℕ ℕ ℕ, L.party = im.ledger.party →
        (bound L plan.1.virtualId backing n).party plan.1.virtualId =
          some ⟨some n, some backing⟩ := by
      intro L hL
      simp only [bound, Ledger.mark, Ledger.point, Ledger.issue, Function.update_self, hL, hknown,
        Option.map_some]
    rw [hpoint _ (by split <;> rfl), Option.some.injEq] at hparty
    have hgrant : ref a.id = some n := (congrArg Pointer.grant hparty).symm
    exact ref_eq_some.mp hgrant
  have hlater : ∀ e' ∈ plan.1.record.backingHistory, e'.Precedes e := by
    intro e' he'
    obtain ⟨hle, hmem⟩ := h.bounded _ _ hv e' he'
    obtain ⟨a', ha'⟩ := Option.isSome_iff_exists.mp (Std.ExtTreeMap.mem_iff_isSome_getElem?.mp hmem)
    constructor
    · rw [heg, hg]
      exact Nat.lt_succ_of_le hle
    · rw [hea, hfresh.1]
      exact (hw.issued .assignment _ _ ha').2.trans_le hn
  cases replacing with
  | false =>
    refine .opened (f := fun e => e) ⟨⟨fun _ => rfl, fun _ => rfl, fun _ hc => hc⟩, ?_, hec, hea,
      hfresh.2, heb, heg, hlater, fun hstrict => halone hstrict rfl⟩
    rw [List.map_id']
    exact congrArg (· ++ [e]) hhistory
  | true =>
    refine .opened ⟨closes_mark fun e => if e.to_ = 0 then clock.now else e.to_, ?_, hec, hea,
      hfresh.2, heb, heg, hlater, fun _ _ _ => rfl⟩
    exact congrArg (· ++ [e]) hhistory

/-- The destination of a migration comes after its source, which the last entry names. -/
theorem descends_commitMigrationAct (hw : im.state.WellKeyed) (h : im.state.Lineal strict)
    {c : Cutover} (hok : commitMigrationCheck auth im = .ok c) :
    Descends strict im (commitMigrationAct auth clock c im.beginOp).1 := by
  have hamends := @amends_commitMigrationAct σ im.beginOp auth clock c
  generalize (commitMigrationAct auth clock c im.beginOp).1 = im1 at hamends ⊢
  replace hamends := hamends.congr_left (show im.beginOp.virtualRecord = im.virtualRecord from rfl)
  obtain ⟨hc, -, -, hdestination⟩ := commitMigrationCheck_ok hok
  have hcoherent : im.ledger.Coherent := h.paced.consistent.coherent
  refine descends_of_amends hamends fun v v' hv _ hr => ?_
  obtain rfl := Option.some.inj (hc.owned.virtual.symm.trans hv)
  obtain ⟨_, _, e, hea, heb, heg, hec, s, m, rfl⟩ := hr
  -- the entry of the destination comes after every other
  have hlater : ∀ e' ∈ c.record.backingHistory, e'.Precedes e := by
    intro e' he'
    constructor
    · rw [heg]
      exact (h.bounded _ _ hv e' he').1.trans_lt
        (cutover_of_pledged hw h.paced.consistent h.pledged hok).2
    · -- the source has authority, so the last entry is its own
      obtain ⟨hmove, htarget, a, ha, hauth⟩ := commitMigration_move hw hok
      obtain ⟨hlt, -⟩ := hcoherent.target _ _ _ hmove htarget
      obtain ⟨r, hr, hparty⟩ := hcoherent.source _ _ hmove
      obtain rfl := Option.some.inj (hr.symm.trans ha)
      have hx : c.migration.toMove.party = c.virtualId := party_toPassage hw hc
      have hheld : im.ledger.Holds c.migration.toMove.source c.virtualId :=
        ⟨_, ha, hauth, hparty.trans hx⟩
      have hpointed := hcoherent.pointed _ _ ha hauth
      have hsource : c.record.assignment = c.migration.toMove.source := by
        have hpointer : im.ledger.party c.virtualId = some c.record.toPointer :=
          party_of_virtual hv
        rw [hparty, hx, hpointer, Option.some.injEq] at hpointed
        exact (ref_eq_some.mp (congrArg Pointer.grant hpointed)).1
      obtain ⟨earlier, last, hhistory, -, hassignment, -⟩ := h.named _ _ hv (hsource ▸ hheld)
      have hin := h.inOrder _ _ hv
      rw [hhistory] at hin he'
      rw [hea]
      exact (hin.le_last he').trans_lt (hassignment.trans hsource ▸ hlt)
  exact .opened ⟨closes_mark fun e => if e.to_ = 0 then clock.now else e.to_, rfl, hec, hea,
    Nat.ne_of_gt (hw.issued .assignment _ _ hdestination).1, heb, heg, hlater, fun _ _ _ => rfl⟩

end Bindings

/-! ### Every body -/

section Bodies

variable {clock : Clock} {op : Op} {b : Body σ Unit}

theorem points_checked {π α : Type} {context : Impl σ → OpContext} {kind : AuditKind}
    {check : Impl σ → Except Status π} {act : π → Body σ α}
    (hact : ∀ plan, check im = .ok plan → Points im (act plan im).1) :
    Points im (checked (fun im => orRefuse (context im) kind (check im)) act im).1 :=
  fst_checked (p := Points im) (.of_ledger rfl) hact

theorem points_forget {α : Type} {body : Body σ α} (h : Points im (body im).1) :
    Points im (body.forget im).1 := h

theorem points_released {x : ℕ} {v : BackingAssignmentId} {y : BackingId}
    (h : im'.ledger = ((im.ledger.revoke v).mark y vacate).point x fun _ => released) :
    Points im im' := by
  refine .of_party fun p' q' hq' => ?_
  rw [h] at hq'
  obtain ⟨-, w, -, rfl⟩ | ⟨-, hold⟩ := Ledger.point_cases hq'
  · exact .inl rfl
  · exact .inr ⟨q', hold, rfl⟩

/-- Unless it binds, an operation lets the virtual accelerators point where they did, or nowhere. -/
theorem points_body (hb : body clock op = some b) (hw : im.state.WellKeyed)
    (hc : im.state.Consistent) (hop : op.binding = false) : Points im (b im.beginOp).1 := by
  suffices hp : Points im.beginOp (b im.beginOp).1 from hp
  by_cases hn : neutral op = true
  · exact .of_ledger (congrArg Ledger.party (ledger_body hb hn))
  have h : Tracks im.beginOp ∅ im.beginOp := .beginOp (show im.beginOp.state.WellKeyed from hw)
  have hc0 : im.beginOp.ledger.Coherent := hc.coherent
  have hl0 : im.beginOp.book.Leased leaseRules := hc.leased
  generalize im.beginOp = i at h hc0 hl0 ⊢
  cases op <;> simp only [neutral, not_true_eq_false] at hn <;>
    simp only [body, Option.some.injEq] at hb <;> subst hb
  case registerPhysical => exact points_checked fun _ _ => (frees_registerPhysicalAct h).points
  case physicalLost => exact points_checked fun _ _ => (frees_physicalLostAct h hc0 hl0).points
  case setPolicy => exact points_checked fun _ _ => (frees_setPolicyAct h hc0).points
  case createVirtual =>
    refine points_forget (points_checked fun _ _ => .of_party fun x p' hp' => ?_)
    simp only [ledger_createVirtualAct, Ledger.enroll] at hp'
    obtain rfl | hx := eq_or_ne x i.nextId
    · rw [Function.update_self, Option.some.injEq] at hp'
      exact .inl (by rw [← hp'])
    · rw [Function.update_of_ne hx] at hp'
      exact .inr ⟨p', hp', rfl⟩
  case suspend =>
    exact points_forget
      (points_checked fun _ _ => points_released (ledger_suspendAct h.wellKeyed ..))
  case retireVirtual =>
    exact points_forget
      (points_checked fun _ _ => points_released (ledger_retireVirtualAct h.wellKeyed ..))
  case planMigration =>
    refine points_forget (points_checked fun _ ho => .of_ledger ?_)
    rw [ledger_planMigrationAct h.wellKeyed _ _ _ _ (planMigrationCheck_ok ho).1]
    rfl
  case prepareMigration =>
    refine points_forget (points_checked fun _ hf => .of_ledger ?_)
    obtain hledger | ⟨n, -, hledger⟩ :=
      ledger_prepareMigrationAct h _ clock (prepareMigrationCheck_ok hf).1
    · rw [hledger]
    · rw [hledger]
      rfl
  case abortMigration =>
    refine points_forget (points_checked fun _ _ => .of_ledger ?_)
    rw [ledger_abortMigrationAct]
    rfl
  all_goals cases hop

/-- Unless it revises a history or makes a virtual accelerator, an operation leaves the histories
alone. -/
theorem history_body (hb : body clock op = some b) (hw : im.state.WellKeyed)
    (hr : op.revises = false) (x : VirtualAcceleratorId) :
    (b im.beginOp).1.dossier.history x = im.dossier.history x ∨
      im.state.virtuals[x]? = none ∧ (b im.beginOp).1.dossier.history x = some [] := by
  cases hs : op.submits with
  | false => exact .inl (congrFun (congrArg Dossier.history (dossier_body hb hs hr)) x)
  | true =>
    have hact : ∀ {π α : Type} {context : Impl σ → OpContext} {kind : AuditKind}
        {check : Impl σ → Except Status π} {act : π → Body σ α},
        (∀ plan, check im.beginOp = .ok plan →
          (act plan im.beginOp).1.dossier.history x = im.dossier.history x ∨
          im.state.virtuals[x]? = none ∧ (act plan im.beginOp).1.dossier.history x = some []) →
        (checked (fun im => orRefuse (context im) kind (check im)) act im.beginOp).1.dossier.history
            x = im.dossier.history x ∨ im.state.virtuals[x]? = none ∧
          (checked (fun im => orRefuse (context im) kind (check im)) act
            im.beginOp).1.dossier.history x = some [] := fun hplan =>
      fst_checked (p := fun im' : Impl σ => im'.dossier.history x = im.dossier.history x ∨
        im.state.virtuals[x]? = none ∧ im'.dossier.history x = some []) (.inl rfl) hplan
    cases op <;> simp only [body, Option.some.injEq, reduceCtorEq, Op.submits] at hb hs <;> subst hb
    case setPolicy =>
      refine hact fun policy _ => .inl ?_
      rw [dossier_setPolicyAct]
      rfl
    case createVirtual =>
      refine hact fun tenant _ => ?_
      rw [dossier_createVirtualAct]
      obtain rfl | hx := eq_or_ne x im.nextId
      · exact .inr ⟨hw.fresh .virtual le_rfl, Function.update_self ..⟩
      · exact .inl (Function.update_of_ne hx ..)
    case updateContract =>
      refine hact fun owned ho => .inl ?_
      obtain ⟨-, hsame⟩ | ⟨_, _, -, hwritten⟩ :=
        dossier_updateContractAct (updateContractCheck_ok ho).1
      · rw [hsame]
        rfl
      · rw [hwritten]
        rfl

/-- Whether an operation leaves no entry current beside the one it opens: nothing is assigned to a
virtual accelerator whose history has a current entry. -/
def closing (im : Impl σ) : Op → Bool
  | .assignBacking auth backing _ =>
    match assignBackingCheck auth backing false im with
    | .error _ => true
    | .ok plan => plan.1.record.backingHistory.all fun e => !e.current
  | _ => true

/-- What every operation makes of the histories. -/
theorem descends_body (hb : body clock op = some b) (hw : im.state.WellKeyed)
    (h : im.state.Lineal strict) (hclosing : strict → im.closing op = true) :
    Descends strict im (b im.beginOp).1 := by
  cases hr : op.revises with
  | false =>
    have hop : op.binding = false := by
      revert hr
      cases op <;> simp [Op.revises, Op.binding]
    exact descends_of_points (history_body hb hw hr) (points_body hb hw h.paced.consistent hop)
  | true =>
    have hact : ∀ {π α : Type} {context : Impl σ → OpContext} {kind : AuditKind}
        {check : Impl σ → Except Status π} {act : π → Body σ α},
        (∀ plan, check im.beginOp = .ok plan → Descends strict im (act plan im.beginOp).1) →
        Descends strict im
          (checked (fun im => orRefuse (context im) kind (check im)) act im.beginOp).1 :=
            fun hplan =>
      fst_checked (p := Descends strict im) .refl hplan
    cases op <;> simp only [body, Option.some.injEq, reduceCtorEq, Op.revises] at hb hr <;> subst hb
    case suspend =>
      refine hact fun owned ho => descends_of_released ?_ (dossier_suspendAct ..) ?_
      · exact closes_mark fun e => e.to_
      · rw [ledger_suspendAct (show im.beginOp.state.WellKeyed from hw)]
        rfl
    case retireVirtual =>
      refine hact fun owned ho => descends_of_released ?_ (dossier_retireVirtualAct ..) ?_
      · exact closes_mark fun e => if e.to_ = 0 then clock.now else e.to_
      · rw [ledger_retireVirtualAct (show im.beginOp.state.WellKeyed from hw)]
        rfl
    case assignBacking auth backing _ =>
      refine hact fun plan ho => descends_assignBackingAct hw h ho fun hstrict _ => ?_
      have hall := hclosing hstrict
      have ho' : assignBackingCheck auth backing false im = .ok plan := ho
      simp only [closing, ho', List.all_eq_true, Bool.not_eq_true'] at hall
      exact hall
    case replaceBacking =>
      exact hact fun plan ho => descends_assignBackingAct hw h ho fun _ => by rintro ⟨⟩
    case commitMigration => exact hact fun c ho => descends_commitMigrationAct hw h ho

theorem lineal_body (hb : body clock op = some b) (hw : im.state.WellKeyed)
    (h : im.state.Lineal strict) (hclosing : strict → im.closing op = true) :
    (b im.beginOp).1.state.Lineal strict := by
  obtain ⟨_, ht, -⟩ := tracks_body hb hw
  have hadvances : im.state.Advances op.course False (b im.beginOp).1.state :=
    advances_body hb hw h.paced.consistent False.elim
  exact lineal_of_step h (grant_zero ht.wellKeyed) (paced_body hb hw h.paced)
    (pledged_body Nat.lt_succ_self hb hw h.paced h.pledged) (descends_body hb hw h hclosing)
    (course_of_paced hb hw h.paced) (fixed_body hb hw).grade hadvances.stage

end Bodies

/-! ### Classification, start and shutdown -/

/-- What leaves authority and the histories alone keeps their order. -/
theorem lineal_of_same {t : Terms} {D : VirtualLifecycleState → VirtualLifecycleState → Prop}
    (h : im.state.Lineal strict) (hw : im.state.WellKeyed) (hledger : im'.ledger = im.ledger)
    (hhistory : im'.dossier.history = im.dossier.history)
    (hroles : im'.fixtures.roles = im.fixtures.roles)
    (hadvances : im.state.Advances D False im'.state) (hv : Revises t im im')
    (hp : im'.state.Paced) (hs : im'.state.Pledged (· < ·)) : im'.state.Lineal strict := by
  refine lineal_of_step h ?_ hp hs
    (descends_of_points (fun x => .inl (congrFun hhistory x)) (.of_ledger (congrArg _ hledger)))
    hv.course (fun g a ha => ?_) hadvances.stage
  · rw [hledger]
    exact grant_zero hw
  · rw [(Prod.mk.inj hroles).2]
    exact ha

theorem lineal_classified (hw : im.state.WellKeyed) (h : im.state.Lineal strict)
    (now : UnixMicros) : (im.classified now).1.state.Lineal strict := by
  have hrevises : Revises ⟨False, False, False, False, False⟩ im (im.classified now).1 :=
    revises_classified im now
  exact lineal_of_same h hw (ledger_classified im now)
    (congrArg Dossier.history (dossier_classified im now))
    (congrArg Fixtures.roles (fixtures_classified im now))
    (advances_classified hw h.paced.consistent now) hrevises (paced_classified hw h.paced now)
    (pledged_classified hw h.paced.consistent h.pledged now)

theorem respects_lineal {T : Prop} : Respects T (Lineal strict) := by
  intro s u h hs
  have hv : s.virtuals = u.virtuals := h.entities .virtual nofun
  have ha : s.assignments = u.assignments := h.entities .assignment nofun
  have hgrant : s.ledger.grant = u.ledger.grant := by
    simp only [VirtualizationState.ledger, ha]
  have hnamed := hs.named
  simp only [Ledger.Holds, hgrant] at hnamed
  refine ⟨respects_paced h hs.paced, respects_pledged h hs.pledged, ?_, ?_, ?_, ?_⟩
  · rw [← hv]
    exact hs.inOrder
  · rw [← hv, ← ha]
    exact hs.bounded
  · rw [← hv]
    exact hnamed
  · rw [← hv]
    exact hs.alone

theorem lineal_empty : ({} : VirtualizationState).Lineal strict where
  paced := paced_empty
  pledged := pledged_empty
  inOrder := by simp
  bounded := by simp
  named := by simp
  alone := by simp

end Impl

namespace Impl

variable {im : Impl Disk} {strict : Prop}

theorem lineal_startBody (hw : im.state.WellKeyed) (h : im.state.Lineal strict) (clock : Clock)
    (recovered : Bool) : (im.startBody clock recovered).state.Lineal strict := by
  have hrevises : Revises ⟨False, False, False, False, False⟩ im (im.startBody clock recovered) :=
    revises_startBody im clock recovered
  exact lineal_of_same h hw (ledger_startBody hw clock recovered)
    (history_startBody clock recovered)
    (roles_startBody clock recovered) (advances_startBody h.paced.consistent clock recovered)
    hrevises (paced_startBody hw h.paced clock recovered)
    (pledged_of_revises h.paced.consistent h.pledged (register_startBody clock recovered)
      (roles_startBody clock recovered) hrevises)

theorem lineal_shutdownBody (hw : im.state.WellKeyed) (h : im.state.Lineal strict)
    (clock : Clock) : (im.shutdownBody clock).state.Lineal strict := by
  have hrevises : Revises ⟨False, False, False, False, False⟩ im (im.shutdownBody clock) :=
    revises_shutdownBody im clock
  have hroles : (im.shutdownBody clock).fixtures.roles = im.fixtures.roles :=
    congrArg Fixtures.roles (fixtures_shutdownBody clock)
  exact lineal_of_same h hw (ledger_shutdownBody hw clock)
    (congrArg Dossier.history (dossier_shutdownBody clock)) hroles
    (advances_shutdownBody h.paced.consistent clock) hrevises
    (paced_shutdownBody hw h.paced clock)
    (pledged_of_revises h.paced.consistent h.pledged (register_shutdownBody clock) hroles hrevises)

theorem invariant_lineal {T : Prop} : Invariant T (Lineal strict) where
  respects := respects_lineal
  empty := lineal_empty
  classified now h := lineal_classified h.wellKeyed h.holds now
  shutdown clock h := lineal_shutdownBody h.wellKeyed h.holds clock

/-- Whether an event leaves no entry current beside one it opens. -/
def closesAlong (im : Impl Disk) : Event → Bool
  | .op op _ answer => (im.answering answer).closing ((im.answering answer).resolve op)
  | _ => true

theorem keeps_lineal (h : Kept False (Lineal strict) im) {event : Event}
    (hc : strict → im.closesAlong event = true) : Keeps False (Lineal strict) im event where
  body op clock answer hevent b hb _ := by
    subst hevent
    have hs := (h.answering answer).state
    exact lineal_body hb hs.wellKeyed hs.holds hc
  start clock _ _ recovered hs _ := lineal_startBody hs.wellKeyed hs.holds clock recovered
  written := nofun

end Impl

/-! ### Linear histories -/

/-- The history of a virtual accelerator is linear: its entries are in order, at most one of them is
current, and the one of the assignment that has authority is the last one, and current. -/
structure VirtualizationState.Linear (s : VirtualizationState) (x : VirtualAcceleratorId)
    (v : VirtualAcceleratorRecord) : Prop where
  inOrder : InOrder v.backingHistory
  alone : currents v.backingHistory ≤ 1
  named : ∀ (g : BackingAssignmentId) (a : BackingAssignment), s.assignments[g]? = some a →
    a.authoritative = true → a.virtualId = x → ∃ earlier e,
      v.backingHistory = earlier ++ [e] ∧ e.current = true ∧ e.assignment = g ∧
        e.backing = a.backing

/-- The assignment that has authority is the one the virtual accelerator points to. -/
theorem VirtualizationState.Lineal.named_authoritative {strict : Prop} {s : VirtualizationState}
    (h : s.Lineal strict) {x : VirtualAcceleratorId} {v : VirtualAcceleratorRecord}
    (hv : s.virtuals[x]? = some v) {g : BackingAssignmentId} {a : BackingAssignment}
    (ha : s.assignments[g]? = some a) (hauth : a.authoritative = true) (hx : a.virtualId = x) :
    ∃ earlier e, v.backingHistory = earlier ++ [e] ∧ e.current = true ∧ e.assignment = g ∧
      e.backing = a.backing := by
  have hgrant : s.ledger.grant g = some a.toGrant := by
    simp [VirtualizationState.ledger, ha]
  have hparty : s.ledger.party x = some v.toPointer := by
    simp [VirtualizationState.ledger, hv]
  have hpointed := h.paced.consistent.coherent.pointed g _ hgrant hauth
  rw [show a.toGrant.party = x from hx, hparty, Option.some.injEq, Pointer.mk.injEq] at hpointed
  obtain ⟨rfl, -⟩ := ref_eq_some.mp hpointed.1
  obtain ⟨earlier, e, hhistory, hcurrent, hassignment, hbacking⟩ :=
    h.named x v hv ⟨_, hgrant, hauth, hx⟩
  exact ⟨earlier, e, hhistory, hcurrent, hassignment,
    hbacking.trans (ref_eq_some.mp hpointed.2).1⟩

/-- In every run the entries of a history are in order, and the one of the assignment that has
authority is the last one and current. -/
theorem history_of_run {options : RuntimeOptions} {stored : Bool} {events : List Event}
    {im : Impl Disk} (h : (Impl.initial options stored).run events = some im)
    {x : VirtualAcceleratorId} {v : VirtualAcceleratorRecord}
    (hv : im.state.virtuals[x]? = some v) : InOrder v.backingHistory ∧
      ∀ (g : BackingAssignmentId) (a : BackingAssignment), im.state.assignments[g]? = some a →
        a.authoritative = true → a.virtualId = x → ∃ earlier e,
          v.backingHistory = earlier ++ [e] ∧ e.current = true ∧ e.assignment = g ∧
            e.backing = a.backing := by
  have hi : Impl.Invariant False (Lineal False) := Impl.invariant_lineal
  have hk := (Impl.kept_initial hi options stored).of_run hi
    (fun _ _ hk => Impl.keeps_lineal hk False.elim) h
  exact ⟨hk.state.holds.inOrder x v hv, fun g a => hk.state.holds.named_authoritative hv⟩

/-- In every state of a run that assigns nothing to a virtual accelerator whose history has a
current entry, the histories are linear. -/
theorem linear_of_run {options : RuntimeOptions} {stored : Bool} {events : List Event}
    {im : Impl Disk} (h : (Impl.initial options stored).run events = some im)
    (hc : (Impl.initial options stored).throughout Impl.closesAlong events = true)
    (x : VirtualAcceleratorId) (v : VirtualAcceleratorRecord)
    (hv : im.state.virtuals[x]? = some v) : im.state.Linear x v := by
  have hi : Impl.Invariant False (Lineal True) := Impl.invariant_lineal
  have hk := (Impl.kept_initial hi options stored).run hi
    (fun _ _ hk hc => Impl.keeps_lineal hk fun _ => hc) h hc
  have hl := hk.state.holds
  exact ⟨hl.inOrder x v hv, hl.alone trivial x v hv, fun g a => hl.named_authoritative hv⟩

/-- A migration closes the first entry and opens another one. -/
theorem linear_moved : ∃ im v, (Impl.initial {} true).run Sample.moved = some im ∧
    im.state.virtuals[14]? = some v ∧ im.state.Linear 14 v ∧
    v.backingHistory.map (·.current) = [false, true] := by
  have hrun : (((Impl.initial {} true).run Sample.moved).any fun im =>
      im.state.virtuals[14]?.any fun v =>
        decide (v.backingHistory.map (·.current) = [false, true])) = true := by
    decide +kernel
  have hc : (Impl.initial {} true).throughout Impl.closesAlong Sample.moved = true := by
    decide +kernel
  obtain ⟨im, him, hlater⟩ := (Option.any_eq_true _ _).mp hrun
  obtain ⟨v, hv, hcurrent⟩ := (Option.any_eq_true _ _).mp hlater
  exact ⟨im, v, him, hv, linear_of_run him hc 14 v hv, of_decide_eq_true hcurrent⟩

/-- The device of a virtual accelerator is lost, and when it is back another of its backings is
assigned. -/
def Sample.reassigned : List Event :=
  Sample.planned ++ [Sample.call (.physicalLost 5 1 []),
    Sample.call (.registerPhysical Sample.anyone 1 4 Sample.device),
    Sample.call (.assignBacking (Sample.owner 14 2) 8 [])]

/-- Then the entry of the lost binding and the new one are both current. -/
theorem not_linear_reassigned : ∃ im v, (Impl.initial {} true).run Sample.reassigned = some im ∧
    im.state.virtuals[14]? = some v ∧ ¬ im.state.Linear 14 v := by
  have hrun : (((Impl.initial {} true).run Sample.reassigned).any fun im =>
      im.state.virtuals[14]?.any fun v => decide (currents v.backingHistory = 2)) = true := by
    decide +kernel
  obtain ⟨im, him, hlater⟩ := (Option.any_eq_true _ _).mp hrun
  obtain ⟨v, hv, hcurrents⟩ := (Option.any_eq_true _ _).mp hlater
  refine ⟨im, v, him, hv, fun hlinear => ?_⟩
  have hle := hlinear.alone
  rw [of_decide_eq_true hcurrents] at hle
  omega

end AcceleratorVirtualization
