import AcceleratorVirtualization.Invariants.Runs

/-!
# What the sweeps leave alone

A start and a shutdown go over the leases, the virtual accelerators, the tenants, the backings and
the devices. What they find outside the records stays as it is.
-/

namespace AcceleratorVirtualization

namespace Impl

variable {σ : Type}

/-- The schema, the epoch, the store and the options. -/
def stamp (im : Impl σ) : ℕ × Generation × Option σ × RuntimeOptions :=
  (im.state.schema, im.state.epoch, im.store, im.options)

theorem stamp_endLease (ended : LeaseState) (reason : Text) (now : UnixMicros) (im : Impl σ)
    (id : LeaseId) : (im.endLease ended reason now id).stamp = im.stamp := by
  unfold endLease
  split
  · rfl
  · split <;> rfl

theorem stamp_releaseAttachments (reason : Text) (now : UnixMicros) (im : Impl σ)
    (id : VirtualAcceleratorId) : (im.releaseAttachments reason now id).stamp = im.stamp := by
  unfold releaseAttachments
  split
  · rfl
  · dsimp only
    split <;> split <;> rfl

theorem stamp_releaseTenant (updated : Option UnixMicros) (im : Impl σ) (id : TenantId) :
    (im.releaseTenant updated id).stamp = im.stamp := by
  unfold releaseTenant
  split
  · rfl
  · split <;> rfl

theorem stamp_distrustBacking (im : Impl σ) (id : BackingId) :
    (im.distrustBacking id).stamp = im.stamp := by
  unfold distrustBacking
  split <;> rfl

theorem stamp_distrustPhysical (im : Impl σ) (id : PhysicalDeviceId) :
    (im.distrustPhysical id).stamp = im.stamp := by
  unfold distrustPhysical
  split <;> rfl

theorem stamp_dropLocalAuthority (im : Impl σ) (now : UnixMicros) :
    (im.dropLocalAuthority now).stamp = im.stamp := by
  simp only [dropLocalAuthority]
  generalize h1 : im.state.leases.keys.foldl _ im = i1
  generalize h2 : i1.state.virtuals.keys.foldl _ i1 = i2
  generalize h3 : i2.state.tenants.keys.foldl _ i2 = i3
  generalize h4 : i3.state.backings.keys.foldl _ i3 = i4
  generalize h5 : i4.state.physical.keys.foldl _ i4 = i5
  calc i5.stamp = i4.stamp := h5 ▸ foldl_unchanged stamp_distrustPhysical _ i4
    _ = i3.stamp := h4 ▸ foldl_unchanged stamp_distrustBacking _ i3
    _ = i2.stamp := h3 ▸ foldl_unchanged (stamp_releaseTenant _) _ i2
    _ = i1.stamp := h2 ▸ foldl_unchanged (stamp_releaseAttachments _ _) _ i1
    _ = im.stamp := h1 ▸ foldl_unchanged (stamp_endLease _ _ _) _ im

theorem stamp_shutdownBody (im : Impl σ) (clock : Clock) :
    (im.shutdownBody clock).stamp = im.stamp := by
  simp only [shutdownBody]
  generalize h1 : im.state.leases.keys.foldl _ im = i1
  generalize h2 : i1.state.virtuals.keys.foldl _ i1 = i2
  generalize h3 : i2.state.tenants.keys.foldl _ i2 = i3
  calc i3.stamp = i2.stamp := h3 ▸ foldl_unchanged (stamp_releaseTenant _) _ i2
    _ = i1.stamp := h2 ▸ foldl_unchanged (stamp_releaseAttachments _ _) _ i1
    _ = im.stamp := h1 ▸ foldl_unchanged (stamp_endLease _ _ _) _ im

theorem stamp_record (im : Impl σ) (clock : Clock) (context : OpContext) (outcome : StatusCode)
    (reason : Text) (kind : AuditKind) :
    (im.record clock context outcome reason kind).stamp = im.stamp := rfl

theorem stamp_startBody (im : Impl σ) (clock : Clock) (recovered : Bool) :
    (im.startBody clock recovered).stamp = (im.enterEpoch recovered).stamp := by
  simp only [startBody]
  generalize im.enterEpoch recovered = i
  split
  · rw [stamp_record, stamp_dropLocalAuthority]
  · rw [stamp_record]

end Impl

end AcceleratorVirtualization
