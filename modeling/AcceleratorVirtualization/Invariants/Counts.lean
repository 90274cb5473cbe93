import AcceleratorVirtualization.Invariants.Ownership

/-!
# Counters and what they count

The attachments of a virtual accelerator are counted again by its owner and by the runtime. The
three counts agree in every state of a run in which no tenant gives a virtual accelerator away while
it uses another one, and every transfer is written: the operations that count anew count what a
tenant lists, which is then all that it uses.
-/

namespace AcceleratorVirtualization

open VirtualizationState Leasing Rosters

/-! ### Attachments -/

/-- Every tenant counts the attachments of its virtual accelerators, and the runtime those of
all. -/
structure VirtualizationState.AttachmentsCounted (s : VirtualizationState) : Prop where
  tenant : ∀ (t : TenantId) (tenant : TenantRecord), s.tenants[t]? = some tenant →
    tenant.activeAttachments =
      ((s.virtuals.values.filter fun v => v.owner = t).map (·.activeAttachments)).sum
  total : s.accounting.attachmentsActive = (s.virtuals.values.map (·.activeAttachments)).sum

namespace Impl

variable {σ : Type} {im : Impl σ}

/-- The use of the tenants with a property, as a sum over the virtual accelerators. -/
theorem load_eq_sum_filter (im : Impl σ) (p : TenantId → Prop) [DecidablePred p] :
    im.book.load p =
      ((im.state.virtuals.values.filter fun v => p v.owner).map (·.activeAttachments)).sum := by
  have hfilter : ∀ l : List VirtualAcceleratorRecord,
      ((l.filter fun v => p v.owner).map (·.activeAttachments)).sum =
        (l.map fun v => if p v.owner then v.activeAttachments else 0).sum := by
    intro l
    induction l with
    | nil => rfl
    | cons v l ih =>
      by_cases hv : p v.owner <;> simp [hv, ih]
  rw [hfilter, sum_values_eq_finsum, Book.load]
  refine finsum_congr fun id => ?_
  simp only [book, VirtualizationState.book]
  cases im.state.virtuals[id]? with
  | none => rfl
  | some v => rfl

theorem attachmentsCounted_of_balanced (h : im.book.Balanced) : im.state.AttachmentsCounted where
  tenant t tenant ht := by
    have haccount := h.account t
    rw [load_eq_sum_filter] at haccount
    rw [← haccount]
    simp only [book, VirtualizationState.book, ht, Option.elim_some]
  total := h.total.trans (load_eq_sum im)

/-- Rosters that list what is in standing list all that can be in use. -/
theorem rostered_of_listed (h : im.registry.Listed) : im.Rostered where
  nodup t ids ht := by
    obtain ⟨tenant, htenant, rfl⟩ := Option.map_eq_some_iff.mp ht
    exact (h.sorted t _ (roster_of_tenant htenant)).imp ne_of_lt
  owned t ids x q ht hx hq := by
    obtain ⟨tenant, htenant, rfl⟩ := Option.map_eq_some_iff.mp ht
    obtain ⟨v, hv, rfl⟩ := virtual_of_seat hq
    obtain ⟨d, hd, hholder⟩ := h.own t _ x (roster_of_tenant htenant) hx
    obtain rfl := Option.some.inj ((deed_of_virtual hv).symm.trans hd)
    exact hholder
  listed x q hq hr := by
    obtain ⟨v, hv, rfl⟩ := virtual_of_seat hq
    obtain ⟨c, hc, hmem⟩ := h.held x _ (deed_of_virtual hv)
    obtain ⟨tenant, htenant, rfl⟩ := Option.map_eq_some_iff.mp hc
    refine ⟨tenant.owned, ?_, hmem (decide_eq_true hr)⟩
    exact Option.map_eq_some_iff.mpr ⟨tenant, htenant, rfl⟩

end Impl

/-- What the counts of attachments rest on. -/
structure VirtualizationState.Reconciled (s : VirtualizationState) : Prop where
  paced : s.Paced
  listed : s.registry.Listed
  balanced : s.book.Balanced

namespace Impl

variable {im : Impl Disk}

theorem respects_balanced : Respects True fun s => s.book.Balanced := by
  intro s t h hb
  have hv : s.virtuals = t.virtuals := h.entities .virtual nofun
  refine hb.congr ?_ ?_ h.attachments.symm
  · simp only [VirtualizationState.book, hv]
  · simp only [VirtualizationState.book, h.tenants trivial]

theorem balanced_empty : ({} : VirtualizationState).book.Balanced where
  finite := by simp [VirtualizationState.book]
  account t := by simp [VirtualizationState.book, Book.load, Book.share]
  total := by simp [VirtualizationState.book, Book.load, Book.share]

/-- Turns that are fair keep the balance. -/
theorem balanced_of_turns {R : Seat ℕ ℕ Phase → Seat ℕ ℕ Phase → Prop} {N : Seat ℕ ℕ Phase → Prop}
    {im im' : Impl Disk} (h : im.state.Paced) (hb : im.state.book.Balanced)
    (ht : Turns R N False True im im') : im'.state.book.Balanced :=
  Book.Steps.balanced trivial h.consistent.leased hb ht

theorem invariant_reconciled : Invariant True Reconciled where
  respects s t h hs :=
    ⟨respects_paced h hs.paced, by rw [h.registry]; exact hs.listed,
      respects_balanced h hs.balanced⟩
  empty := ⟨paced_empty, by rw [registry_empty]; exact Registry.listed_empty, balanced_empty⟩
  classified {i} now h := by
    have hlisted : (i.classified now).1.registry.Listed := by
      rw [registry_classified]
      exact h.holds.listed
    exact ⟨paced_classified h.wellKeyed h.holds.paced now, hlisted,
      balanced_of_turns h.holds.paced h.holds.balanced (turns_classified i now)⟩
  shutdown {i} clock h := by
    have hlisted : (i.shutdownBody clock).registry.Listed := by
      rw [registry_shutdownBody]
      exact h.holds.listed
    have ht : Turns (fun _ _ => True) (fun _ => True) False True i (i.shutdownBody clock) :=
      turns_shutdownBody clock fun _ => trivial
    exact ⟨paced_shutdownBody h.wellKeyed h.holds.paced clock, hlisted,
      balanced_of_turns h.holds.paced h.holds.balanced ht⟩

/-- Whether an event is even-handed. -/
def evenly (im : Impl Disk) : Event → Bool
  | .op op _ answer => (im.answering answer).evenHanded ((im.answering answer).resolve op)
  | _ => true

theorem keeps_reconciled {event : Event} (h : Kept True Reconciled im)
    (hs : im.settling event = true)
    (heven : im.evenly event = true) : Keeps True Reconciled im event where
  body op clock answer hevent b hb _ := by
    subst hevent
    have hsound := (h.answering answer).state
    obtain ⟨hpaced, hlisted, hbalanced⟩ := hsound.holds
    have ht : Lives _ False False True (im.answering answer) (b (im.answering answer).beginOp).1 :=
      lives_body hb hsound.wellKeyed hpaced.consistent.leased
        (fun auth c _ hc => moving_of_commitMigrationCheck hsound.wellKeyed hpaced.consistent hc)
        False.elim (fun _ => ⟨rostered_of_listed hlisted, heven⟩) False.elim
    exact ⟨paced_body hb hsound.wellKeyed hpaced,
      registered_body (fun _ _ hR hstep => hR.step hstep) hb hsound.wellKeyed hpaced hlisted
        False.elim, balanced_of_turns hpaced hbalanced ht⟩
  start clock _ base recovered hbase _ := by
    obtain ⟨hpaced, hlisted, hbalanced⟩ := hbase.holds
    have hlisted' : (base.startBody clock recovered).registry.Listed := by
      rw [registry_startBody]
      exact hlisted
    have ht : Turns (fun _ _ => True) (fun _ => True) False True base
        (base.startBody clock recovered) := by
      cases recovered with
      | true => exact turns_startBody_recovered clock fun _ => trivial
      | false => exact turns_startBody_fresh clock False.elim
    exact ⟨paced_startBody hbase.wellKeyed hpaced clock recovered, hlisted',
      balanced_of_turns hpaced hbalanced ht⟩
  written _ := written_of_settling hs

end Impl

/-- In every state of a run whose transfers are all written and even-handed, the attachments are
counted right. -/
theorem attachmentsCounted_of_run {options : RuntimeOptions} {stored : Bool} {events : List Event}
    {im : Impl Disk} (h : (Impl.initial options stored).run events = some im)
    (hs : (Impl.initial options stored).throughout Impl.settling events = true)
    (heven : (Impl.initial options stored).throughout Impl.evenly events = true) :
    im.state.AttachmentsCounted := by
  have hc := Impl.throughout_and hs heven
  have hk := (Impl.kept_initial Impl.invariant_reconciled options stored).run
    Impl.invariant_reconciled (fun i event hk hcond => ?_) h hc
  · have hbalanced : im.book.Balanced := hk.state.holds.balanced
    exact Impl.attachmentsCounted_of_balanced hbalanced
  · simp only [Bool.and_eq_true] at hcond
    exact Impl.keeps_reconciled hk hcond.1 hcond.2

namespace Sample

/-- Beside the attached virtual accelerator 14, tenant 11 has 26, and there is a tenant 31. -/
def busy : List Event :=
  attached ++ [call (.createVirtual anyone (txt "w") 11 1 contract),
    call (.createTenant anyone (txt "other") [])]

/-- Tenant 31 takes over virtual accelerator 14 and attaches it. -/
def reattached : List Event :=
  busy ++ [call (.transferOwnership (owner 14 3) 31 1),
    call (.attach { owner 14 4 with tenant := some 31 })]

end Sample

theorem attachmentsCounted_reattached : ∃ im,
    (Impl.initial {} true).run Sample.reattached = some im ∧
    im.state.tenants[31]?.map (·.activeAttachments) = some 1 ∧ im.state.AttachmentsCounted := by
  have hrun : (((Impl.initial {} true).run Sample.reattached).any fun im =>
      decide (im.state.tenants[31]?.map (·.activeAttachments) = some 1)) = true := by
    decide +kernel
  obtain ⟨im, him, hcount⟩ := (Option.any_eq_true _ _).mp hrun
  exact ⟨im, him, of_decide_eq_true hcount, attachmentsCounted_of_run him (by decide +kernel)
    (by decide +kernel)⟩

/-- A tenant that gives away a virtual accelerator which it does not use no longer counts the use
of another one. -/
theorem not_attachmentsCounted_busy : ∃ im, (Impl.initial {} true).run
      (Sample.busy ++ [Sample.call (.transferOwnership (Sample.owner 26 1) 31 1)]) = some im ∧
    ¬ im.state.AttachmentsCounted := by
  have hrun : (((Impl.initial {} true).run
      (Sample.busy ++ [Sample.call (.transferOwnership (Sample.owner 26 1) 31 1)])).any fun im =>
      im.state.tenants[11]?.any fun tenant => decide (tenant.activeAttachments ≠
        ((im.state.virtuals.values.filter fun v => v.owner = 11).map (·.activeAttachments)).sum)) =
        true := by
    decide +kernel
  obtain ⟨im, him, hbad⟩ := (Option.any_eq_true _ _).mp hrun
  obtain ⟨tenant, ht, hne⟩ := (Option.any_eq_true _ _).mp hbad
  exact ⟨im, him, fun hcounted => of_decide_eq_true hne (hcounted.tenant 11 tenant ht)⟩

end AcceleratorVirtualization
