import AcceleratorVirtualization.Invariants.Runs

/-!
# Operations whose write fails

An operation whose change set the store refuses is rolled back. The state is the one before the
call if the operation began its undo log before it changed anything and every window it entered
something into had room: the undo log knows the length of a window, not the entry that a full
one evicts.
-/

namespace AcceleratorVirtualization

open VirtualizationState Custody

namespace Impl

section Commit

variable {σ : Type} {s im : Impl σ}

/-- Cutting a window back undoes an extension that evicted nothing. -/
theorem take_pushWindow {α : Type} {capacity : ℕ} {window new : List α}
    (h : window.length + new.length ≤ capacity) :
    (pushWindow capacity window new).take window.length = window := by
  simp only [pushWindow, List.length_append, h, if_true, List.take_left]

/-- A list that takes an entry behind the others, gives up its first one and stays the same holds
that entry only. -/
theorem eq_of_shift {α : Type} {window : List α} {e : α} (h : (window ++ [e]).tail = window) :
    ∀ a ∈ window, a = e := by
  -- The list is its own tail with `e` behind it, so every entry is the next one.
  induction window with
  | nil => exact fun a ha => absurd ha List.not_mem_nil
  | cons b window ih =>
    cases window with
    | nil =>
      intro a ha
      rw [List.mem_singleton.mp ha]
      exact (List.head_eq_of_cons_eq h).symm
    | cons c window =>
      obtain ⟨hcb, htail⟩ := List.cons_eq_cons.mp h
      have hall := ih htail
      intro a ha
      obtain rfl | ha := List.mem_cons.mp ha
      · exact hcb ▸ hall c List.mem_cons_self
      · exact hall a ha

/-- A full window that is cut back to the entries it had holds one entry over and over. -/
theorem eq_of_take_pushWindow {α : Type} {capacity : ℕ} {window new : List α}
    (hnew : new.length = 1) (hfull : capacity ≤ window.length)
    (h : (pushWindow capacity window new).take window.length = window) :
    ∀ a ∈ window, ∀ b ∈ window, a = b := by
  obtain ⟨e, rfl⟩ := List.length_eq_one_iff.mp hnew
  have hpush : pushWindow capacity window [e] =
      (window ++ [e]).drop (window.length + 1 - capacity) := by
    simp only [pushWindow, List.length_append, List.length_singleton]
    exact if_neg (by omega)
  have hlength : (pushWindow capacity window [e]).length = capacity := by
    rw [hpush, List.length_drop, List.length_append, List.length_singleton]
    omega
  rw [List.take_of_length_le (hlength.le.trans hfull)] at h
  have hcapacity : capacity = window.length := by rw [← hlength, h]
  rw [hpush, hcapacity, Nat.add_sub_cancel_left, List.drop_one] at h
  intro a ha b hb
  rw [eq_of_shift h a ha, eq_of_shift h b hb]

/-- A window takes one more entry, or it holds the same one over and over. -/
def Receptive {α : Type} (capacity : ℕ) (window : List α) : Prop :=
  window.length < capacity ∨ ∀ a ∈ window, ∀ b ∈ window, a = b

/-- So does every window into which something is entered under a request identity. -/
def receives (im : Impl σ) (request : RequestId) : Prop :=
  Receptive auditCapacity im.state.audit ∧ Receptive decisionCapacity im.state.decisions ∧
    (valid request = true → Receptive requestWindowCapacity im.state.requests)

theorem receptive_of_take_pushWindow {α : Type} {capacity : ℕ} {window new : List α}
    (hnew : new.length = 1) (h : (pushWindow capacity window new).take window.length = window) :
    Receptive capacity window := by
  by_cases hfull : capacity ≤ window.length
  · exact .inr (eq_of_take_pushWindow hnew hfull h)
  · exact .inl (Nat.lt_of_not_le hfull)

/-- Every window has room for what is entered under a request identity. -/
def hasRoom (im : Impl σ) (op : Op) : Bool :=
  im.state.audit.length < auditCapacity && im.state.decisions.length < decisionCapacity &&
    im.state.requests.length + (if valid op.request then 1 else 0) ≤ requestWindowCapacity

/-- The windows after a failed write, if they had room. -/
theorem Undoes.windows_restored {t : VirtualizationState} (h : Undoes t im)
    {c : ChangeSet} (hw : im.state.audit = pushWindow auditCapacity t.audit c.audit ∧
      im.state.decisions = pushWindow decisionCapacity t.decisions c.decisions ∧
      im.state.requests = pushWindow requestWindowCapacity t.requests c.requests)
    (ha : t.audit.length + c.audit.length ≤ auditCapacity)
    (hd : t.decisions.length + c.decisions.length ≤ decisionCapacity)
    (hr : t.requests.length + c.requests.length ≤ requestWindowCapacity) :
    im.rollback.state.audit = t.audit ∧ im.rollback.state.decisions = t.decisions ∧
      im.rollback.state.requests = t.requests := by
  obtain ⟨hra, hrd, hrr⟩ := h.windows_rollback
  refine ⟨?_, ?_, ?_⟩
  · rw [hra, hw.1, take_pushWindow ha]
  · rw [hrd, hw.2.1, take_pushWindow hd]
  · rw [hrr, hw.2.2, take_pushWindow hr]

variable [DurableStore σ]

/-- A failed commit leaves the records and the scalars the operation began with. -/
theorem Ready.undone {status : Status} (h : Ready s im) (hfailed : im.commit.2 = .error status) :
    ∃ im', Undoes s.state im' ∧ im.commit.1 = im'.rollback ∧
      im'.state = im.extended.state := by
  obtain ⟨store, -, hcommit⟩ | ⟨store, status', -, hcommit⟩ := commit_cases im
  · rw [hcommit] at hfailed
    cases hfailed
  · rw [hcommit]
    exact ⟨_, h.undoes store status', rfl, rfl⟩

omit [DurableStore σ] in
/-- What is handed to the store are the windows the operation began with, extended. -/
theorem Ready.windows_extended (h : Ready s im) :
    im.extended.state.audit = pushWindow auditCapacity s.state.audit im.changes.audit ∧
      im.extended.state.decisions =
        pushWindow decisionCapacity s.state.decisions im.changes.decisions ∧
      im.extended.state.requests =
        pushWindow requestWindowCapacity s.state.requests im.changes.requests := by
  rw [← h.windows.1, ← h.windows.2.1, ← h.windows.2.2]
  exact ⟨rfl, rfl, rfl⟩

/-- With room in the windows, the state is the one the operation began with. -/
theorem Ready.restored {status : Status} (h : Ready s im) (hfailed : im.commit.2 = .error status)
    (ha : s.state.audit.length + im.changes.audit.length ≤ auditCapacity)
    (hd : s.state.decisions.length + im.changes.decisions.length ≤ decisionCapacity)
    (hr : s.state.requests.length + im.changes.requests.length ≤ requestWindowCapacity) :
    im.commit.1.state = s.state := by
  obtain ⟨im', hundo, hcommit, hstate⟩ := h.undone hfailed
  rw [hcommit]
  exact state_ext hundo.entities_rollback hundo.scalars_rollback
    (hundo.windows_restored (hstate ▸ h.windows_extended) ha hd hr)

/-- If the state is the one the operation began with, every window took what was entered, or held
nothing else. -/
theorem Ready.receives {status : Status} {request : RequestId} (h : Ready s im)
    (hfailed : im.commit.2 = .error status) (henters : im.changes.Enters true request)
    (heq : im.commit.1.state = s.state) : s.receives request := by
  obtain ⟨im', hundo, hcommit, hstate⟩ := h.undone hfailed
  obtain ⟨hra, hrd, hrr⟩ := hundo.windows_rollback
  obtain ⟨ha, hd, hr⟩ := h.windows_extended
  rw [hcommit] at heq
  rw [hstate] at hra hrd hrr
  refine ⟨receptive_of_take_pushWindow henters.audit ?_,
    receptive_of_take_pushWindow henters.decisions ?_, fun hv =>
    receptive_of_take_pushWindow (henters.requests.trans (by rw [hv]; rfl)) ?_⟩
  · rw [← ha, ← hra, heq]
  · rw [← hd, ← hrd, heq]
  · rw [← hr, ← hrr, heq]

/-- Whether the tenants, the identities and the counters are the ones before the call does not
depend on the windows. -/
theorem Written.displaced_of_eq {im' : Impl σ} {r : Impl σ × Except Failure Unit}
    {status : Status} (h : Written im s im' r) (hfailed : im'.commit.2 = .error status)
    (heq : im'.commit.1.state = im.state) : s.state = im.state := by
  obtain ⟨im1, hundo, hcommit, -⟩ := h.ready.undone hfailed
  rw [hcommit] at heq
  have ht : im.state.tenants = s.state.tenants := by
    rw [← heq]
    exact hundo.entities_rollback .tenant
  have hn : im.state.nextSequence = s.state.nextSequence := by
    rw [← heq]
    exact hundo.scalars_rollback.1
  have ha : im.state.accounting = s.state.accounting := by
    rw [← heq]
    exact hundo.scalars_rollback.2.2.2.2.1
  rw [h.displaced.state, ← ht, ← hn, ← ha]

end Commit

theorem reported_of_displaces {σ : Type} {im : Impl σ} {op : Op} (h : im.displaces op = false) :
    op.reported = true := by
  cases op <;> try rfl
  simp [displaces] at h

/-- A failed write restores the state before the call if the operation does not displace it and
the windows have room; an operation that displaces it is never undone, nor is the entry that a full
window gave up, unless the window holds nothing else. -/
theorem exec_restored {σ : Type} [DurableStore σ] {im : Impl σ} {clock : Clock} {op : Op}
    {status : Status} (hw : im.state.WellKeyed)
    (hfailed : (im.exec clock op).2 = .error (.persistence status)) :
    (im.displaces op = false → im.hasRoom op = true → (im.exec clock op).1.state = im.state) ∧
      ((im.exec clock op).1.state = im.state →
        im.displaces op = false ∧ im.receives op.request) := by
  have hdoes : Does (fun _ => True) im clock op := ⟨trivial, fun _ _ => trivial, fun _ => trivial⟩
  obtain hr | ⟨s, im', hwritten, -, hiff, -, henters⟩ := exec_cases (fun _ _ _ h => h) hw hdoes
  · exact absurd hfailed (hr.answer status)
  · have hcommit := (hwritten.failed status).mp hfailed
    rw [hwritten.committed, ← hiff]
    refine ⟨fun hs hroom => ?_, fun heq => ?_⟩
    · simp only [hasRoom, Bool.and_eq_true, decide_eq_true_eq] at hroom
      obtain ⟨⟨hra, hrd⟩, hrr⟩ := hroom
      rw [reported_of_displaces (hiff.mp hs)] at henters
      refine (hwritten.ready.restored hcommit ?_ ?_ ?_).trans hs <;> rw [hs]
      · rwa [henters.audit]
      · rwa [henters.decisions]
      · rwa [henters.requests, Bool.true_and, Bool.toNat, Bool.cond_eq_ite]
    · have hs := hwritten.displaced_of_eq hcommit heq
      rw [reported_of_displaces (hiff.mp hs)] at henters
      have hreceives := hwritten.ready.receives hcommit henters (heq.trans hs.symm)
      simp only [receives, hs] at hreceives
      exact ⟨hs, hreceives⟩

end Impl

/-- In every state a run reaches, an operation whose write fails leaves the state as it was if
it does not displace it and the windows have room, and only if it does not displace it and every
window that has no room holds one entry over and over. -/
theorem state_restored_of_run {options : RuntimeOptions} {stored : Bool} {events : List Event}
    {im : Impl Disk} (h : (Impl.initial options stored).run events = some im) (op : Op)
    (clock : Clock) {answer : Check} {status : Status}
    (hfailed : ((im.answering answer).exec clock op).2 = .error (.persistence status)) :
    (im.displaces op = false → im.hasRoom op = true →
      ((im.answering answer).exec clock op).1.state = im.state) ∧
    (((im.answering answer).exec clock op).1.state = im.state →
      im.displaces op = false ∧ im.receives op.request) :=
  Impl.exec_restored ((Impl.coherent_of_run h).answering answer).state.wellKeyed hfailed

namespace Sample

/-- A disk that is full. -/
def full : Check := .error (.of .ioFailure "no space left on device")

/-- Whether an operation failed because its change set was not written. -/
def unwritten (r : Impl Disk × Except Failure Unit) : Bool :=
  match r.2 with
  | .error (.persistence _) => true
  | _ => false

theorem unwritten_iff {r : Impl Disk × Except Failure Unit} :
    unwritten r = true ↔ ∃ status, r.2 = .error (.persistence status) := by
  unfold unwritten
  split
  · rename_i status h
    exact iff_of_true rfl ⟨status, h⟩
  · rename_i h
    exact iff_of_false (by simp) fun ⟨status, hs⟩ => h status hs

/-- The tenant 31 that takes over a virtual accelerator. -/
def joined : List Event := planned ++ [call (.createTenant anyone (txt "other") [])]

end Sample

/-- The registration of a tenant that is not written leaves nothing behind. -/
theorem state_restored_createTenant : ∃ im, (Impl.initial {} true).run Sample.joined = some im ∧
    ((im.answering Sample.full).exec Sample.clock
      (.createTenant Sample.anyone (txt "third") [])).1.state = im.state := by
  have hrun : (((Impl.initial {} true).run Sample.joined).any fun im =>
      Sample.unwritten ((im.answering Sample.full).exec Sample.clock
        (.createTenant Sample.anyone (txt "third") [])) &&
      im.hasRoom (.createTenant Sample.anyone (txt "third") [])) = true := by
    decide +kernel
  obtain ⟨im, him, hgood⟩ := (Option.any_eq_true _ _).mp hrun
  rw [Bool.and_eq_true] at hgood
  obtain ⟨status, hfailed⟩ := Sample.unwritten_iff.mp hgood.1
  exact ⟨im, him, (state_restored_of_run him _ Sample.clock hfailed).1 rfl hgood.2⟩

/-- A transfer that is not written leaves the virtual accelerator with both tenants' lists
changed. -/
theorem not_state_restored_transfer : ∃ im, (Impl.initial {} true).run Sample.joined = some im ∧
    (∃ status, ((im.answering Sample.full).exec Sample.clock
      (.transferOwnership (Sample.owner 19 1) 31 1)).2 = .error (.persistence status)) ∧
    ((im.answering Sample.full).exec Sample.clock
      (.transferOwnership (Sample.owner 19 1) 31 1)).1.state ≠ im.state := by
  have hrun : (((Impl.initial {} true).run Sample.joined).any fun im =>
      let r := (im.answering Sample.full).exec Sample.clock
        (.transferOwnership (Sample.owner 19 1) 31 1)
      Sample.unwritten r &&
        r.1.state.tenants[31]?.map (·.owned) ≠ im.state.tenants[31]?.map (·.owned)) = true := by
    decide +kernel
  obtain ⟨im, him, hbad⟩ := (Option.any_eq_true _ _).mp hrun
  rw [Bool.and_eq_true, decide_eq_true_eq] at hbad
  exact ⟨im, him, Sample.unwritten_iff.mp hbad.1, fun heq => hbad.2 (by rw [heq])⟩

end AcceleratorVirtualization
