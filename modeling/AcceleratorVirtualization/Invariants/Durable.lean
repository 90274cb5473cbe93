import AcceleratorVirtualization.Invariants.Operations

/-!
# The durable image

A commit hands the store the records that changed. Because every change was tracked, the image
that takes exactly the listed records is again the state of the runtime, if it was before.
-/

namespace AcceleratorVirtualization

open VirtualizationState

/-! ### Merging a change set -/

namespace Disk

private theorem getElem?_mergeList {α : Type} (new : ℕ → Option α) (id : ℕ) (l : List ℕ)
    (map : IdMap α) :
    (l.foldl (fun map id => Impl.setRecord map id (new id)) map)[id]? =
      if id ∈ l then new id else map[id]? := by
  induction l generalizing map with
  | nil => rfl
  | cons id' l ih =>
    rw [List.foldl_cons, ih, Impl.getElem?_setRecord]
    by_cases hl : id ∈ l
    · simp [hl]
    · by_cases h : id' = id
      · subst h
        simp [hl]
      · simp [hl, h, Ne.symm h]

/-- A listed record is the new one, the others are the old ones. -/
theorem getElem?_mergeRecords (old new : VirtualizationState) (c : ChangeSet) (k : RecordKind)
    (id : ℕ) :
    (mergeRecords old new c k)[id]? = if id ∈ c.ids k then new.find k id else old.find k id := by
  unfold mergeRecords
  rw [Std.ExtTreeSet.foldl_eq_foldl_toList]
  rw [getElem?_mergeList (new.find k)]
  simp [find]

theorem entities_merge (old new : VirtualizationState) (c : ChangeSet) (k : RecordKind) :
    (merge old new c).entities k = mergeRecords old new c k := by
  cases k <;> simp only [merge, Impl.pushWindows, VirtualizationState.entities]

theorem find_merge (old new : VirtualizationState) (c : ChangeSet) (k : RecordKind) (id : ℕ) :
    (merge old new c).find k id = if id ∈ c.ids k then new.find k id else old.find k id := by
  rw [find, entities_merge, getElem?_mergeRecords]

/-- The scalars and the windows of the image after a change set with the header. -/
theorem scalars_merge (old new : VirtualizationState) {c : ChangeSet} (h : c.header = true) :
    (merge old new c).schema = new.schema ∧ (merge old new c).nextSequence = new.nextSequence ∧
      (merge old new c).epoch = new.epoch ∧ (merge old new c).policy = new.policy ∧
      (merge old new c).policyGeneration = new.policyGeneration ∧
      (merge old new c).accounting = new.accounting := by
  simp only [merge, Impl.pushWindows, mergeHeader, h, if_true, and_self]

theorem windows_merge (old new : VirtualizationState) (c : ChangeSet) :
    (merge old new c).audit = Impl.pushWindow auditCapacity old.audit c.audit ∧
      (merge old new c).decisions =
        Impl.pushWindow decisionCapacity old.decisions c.decisions ∧
      (merge old new c).requests =
        Impl.pushWindow requestWindowCapacity old.requests c.requests := by
  simp only [merge, Impl.pushWindows, mergeHeader]
  split <;> exact ⟨rfl, rfl, rfl⟩

end Disk

/-! ### Commits -/

namespace Impl

variable {σ : Type} {s im : Impl σ}

/-- The image is the state again. -/
theorem Ready.merge_eq (h : Ready s im) :
    Disk.merge s.state im.extended.state im.changes = im.extended.state := by
  refine state_ext (fun k => Std.ExtTreeMap.ext_getElem? fun id => ?_) ?_ ?_
  · change (Disk.merge _ _ _).find k id = _
    rw [Disk.find_merge]
    split
    · rfl
    · rename_i hid
      rw [entities_extended]
      exact (h.untouched k id (mt (h.listed k id).mpr hid)).symm
  · obtain ⟨hs, hn, he, hp, hg, ha⟩ := Disk.scalars_merge s.state im.extended.state
      h.header
    exact ⟨hn, he, hp, hg, ha, hs⟩
  · obtain ⟨ha, hd, hr⟩ := Disk.windows_merge s.state im.extended.state im.changes
    rw [ha, hd, hr, ← h.windows.1, ← h.windows.2.1, ← h.windows.2.2]
    exact ⟨rfl, rfl, rfl⟩

theorem Ready.nonempty (h : Ready s im) : im.extended.changes.empty = false := by
  simp [extended, ChangeSet.empty, h.header]

end Impl

end AcceleratorVirtualization
