import Mathlib.Data.List.Destutter
import Mathlib.Data.List.Sort
import AcceleratorVirtualization.Lib.KeyedList
import AcceleratorVirtualization.Status
import AcceleratorVirtualization.Taxonomy

/-!
# Capability surfaces, isolation profiles and projections

A capability surface holds at most one entry per key and an isolation profile at most one
claim per dimension, both in the order of the stored values. The order is part of the type,
so a surface that repeats a key cannot be built.
-/

namespace AcceleratorVirtualization

open Enumeration (value)

/-! ### Identities and generations

Identities and generations are 64-bit words that only ever grow by one; they are modelled by
naturals, and the durable format (where a word is eight bytes) states when they fit. -/

/-- `VirtualAcceleratorId`; as for every identity, zero stands for none. -/
abbrev VirtualAcceleratorId := ℕ
/-- `TenantId`. -/
abbrev TenantId := ℕ
/-- `AgentId`. -/
abbrev AgentId := ℕ
/-- `AgentBootId`: one life of an agent process. -/
abbrev AgentBootId := ℕ
/-- `PhysicalDeviceId`. -/
abbrev PhysicalDeviceId := ℕ
/-- `BackingId`. -/
abbrev BackingId := ℕ
/-- `BackingAssignmentId`. -/
abbrev BackingAssignmentId := ℕ
/-- `LeaseId`. -/
abbrev LeaseId := ℕ
/-- `MigrationId`. -/
abbrev MigrationId := ℕ
/-- `EvidenceId`. -/
abbrev EvidenceId := ℕ
/-- `DecisionId`. -/
abbrev DecisionId := ℕ
/-- `RequestId`. -/
abbrev RequestId := ℕ
/-- A generation, or the coordinator epoch. -/
abbrev Generation := ℕ

/-- Zero is the identity (or generation) nothing has. -/
def valid (id : ℕ) : Bool := id ≠ 0

/-- A virtual accelerator, as it is named in a message. -/
def strVirtual (id : VirtualAcceleratorId) : Text := renderStrongId "va" id
/-- A tenant, as it is named in a message. -/
def strTenant (id : TenantId) : Text := renderStrongId "tn" id
/-- An agent, as it is named in a message. -/
def strAgent (id : AgentId) : Text := renderStrongId "ag" id
/-- A device, as it is named in a message. -/
def strPhysical (id : PhysicalDeviceId) : Text := renderStrongId "pd" id
/-- A backing, as it is named in a message. -/
def strBacking (id : BackingId) : Text := renderStrongId "bk" id
/-- A lease, as it is named in a message. -/
def strLease (id : LeaseId) : Text := renderStrongId "ls" id
/-- A migration, as it is named in a message. -/
def strMigration (id : MigrationId) : Text := renderStrongId "mg" id
/-- A request, as it is named in a message. -/
def strRequest (id : RequestId) : Text := renderStrongId "rq" id

/-! ### Sorted, deduplicated lists -/

/-- Sorted by stored value, without repetition: `std::sort` followed by `std::unique`. Values that
are equal are the same, so that every sort gives this. -/
def sortUnique {α : Type} [Enumeration α] (l : List α) : List α :=
  (l.insertionSort fun a b => value a ≤ value b).destutter fun a b => value a ≠ value b

/-! ### Capability surfaces -/

/-- What is known of one capability, and where that comes from. -/
structure CapabilityEntry where
  key : CapabilityKey := .unknown
  verdict : CapabilityVerdict := .unknown
  value : ℕ := 0
  text : Text := []
  /-- Evidence mechanism that produced this statement. -/
  provenance : Text := []
  deriving DecidableEq

theorem sorted_entries_nil :
    KeyedList.Sorted (fun e : CapabilityEntry => value e.key) [] := KeyedList.sorted_nil

/-- Deterministic, sorted by key, at most one entry per key. -/
structure CapabilitySurface where
  entries : List CapabilityEntry := []
  sorted : KeyedList.Sorted (fun e => value e.key) entries := by exact sorted_entries_nil
  deriving DecidableEq

namespace CapabilitySurface

instance : Inhabited CapabilitySurface := ⟨{}⟩

/-- Enter what is known of a capability, in place of what was known. -/
def set (surface : CapabilitySurface) (entry : CapabilityEntry) : CapabilitySurface where
  entries := KeyedList.upsert (fun e => value e.key) entry surface.entries
  sorted := KeyedList.sorted_upsert entry surface.sorted

/-- What is known of a capability. -/
def find (surface : CapabilitySurface) (key : CapabilityKey) : Option CapabilityEntry :=
  surface.entries.find? fun e => e.key = key

/-- The surface without the entry for `key`. -/
def without (surface : CapabilitySurface) (key : CapabilityKey) : CapabilitySurface :=
  surface.entries.foldl (fun rebuilt e => if e.key ≠ key then rebuilt.set e else rebuilt) {}

/-- What is found under a key is the entry with that key. -/
theorem find_eq_some_iff {surface : CapabilitySurface} {key : CapabilityKey}
    {entry : CapabilityEntry} :
    surface.find key = some entry ↔ entry ∈ surface.entries ∧ entry.key = key := by
  have h := KeyedList.find?_eq_some_iff (a := entry) (k := value key) surface.sorted
  simp only [Enumeration.value_inj] at h
  exact h

/-- The last statement under a key is the one that stands. -/
theorem find_set (surface : CapabilitySurface) (entry : CapabilityEntry) (key : CapabilityKey) :
    (surface.set entry).find key = if entry.key = key then some entry else surface.find key := by
  have h := KeyedList.find?_upsert entry (value key) surface.sorted
  simp only [Enumeration.value_inj] at h
  exact h

/-- The entries without one key. -/
theorem entries_without (surface : CapabilitySurface) (key : CapabilityKey) :
    (surface.without key).entries = surface.entries.filter fun e => e.key ≠ key := by
  have hfold : ∀ (l : List CapabilityEntry) (acc : CapabilitySurface),
      (l.foldl (fun rebuilt e => if e.key ≠ key then rebuilt.set e else rebuilt) acc).entries =
        (l.filter fun e => e.key ≠ key).foldl
          (fun acc e => KeyedList.upsert (fun e => value e.key) e acc) acc.entries := by
    intro l
    induction l with
    | nil => intro acc; rfl
    | cons e l ih =>
      intro acc
      rw [List.foldl_cons, ih, List.filter_cons]
      by_cases he : e.key = key
      · simp [he]
      · simp [he, set]
  rw [without, hfold]
  exact KeyedList.foldl_upsert_eq (List.Pairwise.filter _ surface.sorted)

/-- What is found without one key. -/
theorem find_without (surface : CapabilitySurface) (key k : CapabilityKey) :
    (surface.without key).find k = if k = key then none else surface.find k := by
  rw [find, entries_without, List.find?_filter]
  split
  · rename_i hk
    refine List.find?_eq_none.mpr fun e _ => ?_
    by_cases he : e.key = key
    · simp [he]
    · simp [hk, he]
  · rename_i hk
    rw [find]
    congr 1
    funext e
    by_cases he : e.key = k
    · simp [he, hk]
    · simp [he]

/-- The entries as text, in the order of their keys. -/
def canonical (surface : CapabilitySurface) : Text :=
  surface.entries.flatMap fun e =>
    capabilityKeyName e.key ++ txt "=" ++ capabilityVerdictName e.verdict ++ txt ":" ++
      toDecimal e.value ++ (if e.text.isEmpty then [] else txt ":" ++ e.text) ++
      txt " [" ++ e.provenance ++ txt "]\n"

/-- The hash over the entries. -/
def fingerprint (surface : CapabilitySurface) : ℕ :=
  surface.entries.foldl (fun h e =>
    let h := Fnv1a64.update h (capabilityKeyName e.key ++ txt "=")
    let h := Fnv1a64.update h (capabilityVerdictName e.verdict ++ txt ":")
    Fnv1a64.update (Fnv1a64.updateWord h e.value) (e.text ++ txt "|")) Fnv1a64.init

end CapabilitySurface

/-- What a virtual accelerator advertises, bound to the generations it was derived from. -/
structure CapabilityProjection where
  id : ℕ := 0
  generation : Generation := 0
  surface : CapabilitySurface := {}
  /-- Capabilities the backing supports but this projection withholds. -/
  hidden : List CapabilityKey := []
  /-- Capabilities whose behaviour cannot be proven for this backing. -/
  unknown : List CapabilityKey := []
  backingGeneration : Generation := 0
  physicalGeneration : Generation := 0
  policyGeneration : Generation := 0
  contractGeneration : Generation := 0
  fingerprint : ℕ := 0
  mechanism : Text := []
  deriving DecidableEq

/-- Sort the withheld and the unproven keys and recompute the fingerprint. -/
def CapabilityProjection.seal (p : CapabilityProjection) : CapabilityProjection :=
  let hidden := sortUnique p.hidden
  let unknown := sortUnique p.unknown
  let hash := Fnv1a64.update Fnv1a64.init p.surface.canonical
  let hash := Fnv1a64.update hash (hidden.flatMap capabilityKeyName ++ txt "#")
  let hash := Fnv1a64.update hash (unknown.flatMap capabilityKeyName ++ txt "#")
  let hash := Fnv1a64.update hash p.mechanism
  let hash := [p.backingGeneration, p.physicalGeneration, p.policyGeneration,
    p.contractGeneration].foldl Fnv1a64.updateWord hash
  { p with hidden := hidden, unknown := unknown, fingerprint := hash }

/-! ### Isolation profiles -/

/-- What is claimed of one dimension, with the evidence. -/
structure IsolationClaim where
  dimension : IsolationDimension := .memory
  state : IsolationState := .unknown
  evidence : EvidenceId := 0
  evidenceGen : Generation := 0
  mechanism : Text := []
  rationale : Text := []
  deriving DecidableEq

theorem sorted_claims_nil :
    KeyedList.Sorted (fun c : IsolationClaim => value c.dimension) [] := KeyedList.sorted_nil

/-- One claim per dimension at most, sorted by dimension. -/
structure IsolationProfile where
  claims : List IsolationClaim := []
  sorted : KeyedList.Sorted (fun c => value c.dimension) claims := by exact sorted_claims_nil
  deriving DecidableEq

namespace IsolationProfile

instance : Inhabited IsolationProfile := ⟨{}⟩

/-- Enter a claim, in place of the one of its dimension. -/
def set (profile : IsolationProfile) (claim : IsolationClaim) : IsolationProfile where
  claims := KeyedList.upsert (fun c => value c.dimension) claim profile.claims
  sorted := KeyedList.sorted_upsert claim profile.sorted

/-- What is claimed of a dimension. -/
def find (profile : IsolationProfile) (dimension : IsolationDimension) : Option IsolationClaim :=
  profile.claims.find? fun c => c.dimension = dimension

/-- A missing dimension is unknown. -/
def stateOf (profile : IsolationProfile) (dimension : IsolationDimension) : IsolationState :=
  ((profile.find dimension).map (·.state)).getD .unknown

end IsolationProfile

/-- The weakest state that is accepted in a dimension. -/
structure IsolationRequirement where
  dimension : IsolationDimension := .memory
  minimum : IsolationState := .shared
  deriving DecidableEq

/-- A state is at least as strong as what is required. -/
def isolationStateAtLeast (have_ required : IsolationState) : Bool := value required ≤ value have_

/-- What `std::sort` makes of a list of requirements. They are sorted by dimension, and in which
order it leaves those of one dimension is not specified. -/
structure Sorting where
  sort : List IsolationRequirement → List IsolationRequirement
  perm : ∀ l, (sort l).Perm l
  sorted : ∀ l, (sort l).Pairwise fun a b => value a.dimension ≤ value b.dimension

namespace Sorting

/-- Sorting by insertion, which leaves those of one dimension in the order they had. A library that
sorts short lists like this does so up to a fixed length. -/
def insertion : Sorting where
  sort l := l.insertionSort fun a b => value a.dimension ≤ value b.dimension
  perm l := List.perm_insertionSort _ l
  sorted l := by
    have : IsTrans IsolationRequirement fun a b => value a.dimension ≤ value b.dimension :=
      ⟨fun _ _ _ => Nat.le_trans⟩
    have : Std.Total fun a b : IsolationRequirement => value a.dimension ≤ value b.dimension :=
      ⟨fun a b => Nat.le_total _ _⟩
    exact List.pairwise_insertionSort _ _

end Sorting

/-- Requirements sorted by dimension, one per dimension: `std::sort` followed by `std::unique`. -/
def normalizeRequirements (sorting : Sorting) (l : List IsolationRequirement) :
    List IsolationRequirement :=
  (sorting.sort l).destutter fun a b => value a.dimension ≠ value b.dimension

/-- Whether two consecutive requirements are about one dimension. -/
def repeatsDimension : List IsolationRequirement → Bool
  | a :: b :: l => a.dimension = b.dimension || repeatsDimension (b :: l)
  | _ => false

end AcceleratorVirtualization
