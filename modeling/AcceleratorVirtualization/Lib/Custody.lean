import Mathlib.Logic.Function.Basic
import Mathlib.Order.Lattice

/-!
# Custody of resources

Parties hold resources through grants, one authoritative grant per party at most. A party
points to the grant and the resource it was last bound to; a resource may be exclusive and
then records the one party and grant that hold it. Authority is handed over in two steps: a
move prepares a second grant that has no authority yet, and the cutover takes the authority
from the first and gives it to the second.

`Coherent` is the invariant that makes authority single: an authoritative grant is the one its
party points to. `Exclusive` says that an exclusive resource records exactly the grant that
holds it. Every step has its own preservation lemma; the conditions under which a step keeps
`Exclusive` are part of the statement, since not every step does.
-/


namespace Custody

/-- A grant of a resource to a party. -/
structure Grant (P R : Type*) where
  party : P
  resource : R
  authoritative : Bool

/-- What a party points to. -/
structure Pointer (R G : Type*) where
  grant : Option G
  resource : Option R

/-- What a resource records about its holder. -/
structure Slot (P G : Type*) where
  exclusive : Bool
  holder : Option P
  active : Option G

/-- A hand-over: the party, where it goes, and the grants it goes from and to. -/
structure Move (P R G : Type*) where
  party : P
  destination : R
  source : G
  target : Option G

/-- All that is known about parties, resources, grants and moves. -/
@[ext]
structure Ledger (P R G M : Type*) where
  grant : G → Option (Grant P R)
  party : P → Option (Pointer R G)
  slot : R → Option (Slot P G)
  move : M → Option (Move P R G)

namespace Ledger

section Steps

variable {P R G M : Type*} [DecidableEq P] [DecidableEq R] [LinearOrder G] [DecidableEq M]
variable (L : Ledger P R G M)

/-! ### Steps -/

/-- Take authority away from a grant. -/
def revoke (g : G) : Ledger P R G M :=
  { L with
    grant := Function.update L.grant g
      ((L.grant g).map fun r => { r with authoritative := false }) }

/-- Give authority to a grant. -/
def empower (g : G) : Ledger P R G M :=
  { L with
    grant := Function.update L.grant g
      ((L.grant g).map fun r => { r with authoritative := true }) }

/-- Enter a grant. -/
def issue (g : G) (r : Grant P R) : Ledger P R G M :=
  { L with grant := Function.update L.grant g (some r) }

/-- Let a known party point elsewhere. -/
def point (p : P) (q : Pointer R G → Pointer R G) : Ledger P R G M :=
  { L with party := Function.update L.party p ((L.party p).map q) }

/-- Enter a party that points nowhere. -/
def enroll (p : P) : Ledger P R G M :=
  { L with party := Function.update L.party p (some ⟨none, none⟩) }

/-- Change what a known resource records. -/
def mark (x : R) (f : Slot P G → Slot P G) : Ledger P R G M :=
  { L with slot := Function.update L.slot x ((L.slot x).map f) }

/-- Enter a resource nobody holds. -/
def found (x : R) (exclusive : Bool) : Ledger P R G M :=
  { L with slot := Function.update L.slot x (some ⟨exclusive, none, none⟩) }

/-- Enter a move. -/
def plan (m : M) (v : Move P R G) : Ledger P R G M :=
  { L with move := Function.update L.move m (some v) }

/-- Name the grant a known move goes to. -/
def aim (m : M) (g : G) : Ledger P R G M :=
  { L with move := Function.update L.move m ((L.move m).map fun v => { v with target := some g }) }

/-! ### Authority -/

/-- The grant has authority and belongs to the party. -/
def Holds (g : G) (p : P) : Prop :=
  ∃ r, L.grant g = some r ∧ r.authoritative = true ∧ r.party = p

/-- No grant of the party has authority. -/
def Idle (p : P) : Prop := ∀ g, ¬ L.Holds g p

/-- An authoritative grant is the one its party points to; pointers and moves name grants of
their own party; grants and moves name known resources. -/
structure Coherent : Prop where
  pointed : ∀ g r, L.grant g = some r → r.authoritative = true →
    L.party r.party = some ⟨some g, some r.resource⟩
  owned : ∀ p q g, L.party p = some q → q.grant = some g →
    ∃ r, L.grant g = some r ∧ r.party = p ∧ q.resource = some r.resource
  placed : ∀ g r, L.grant g = some r → (L.slot r.resource).isSome
  source : ∀ m v, L.move m = some v → ∃ r, L.grant v.source = some r ∧ r.party = v.party
  target : ∀ m v g, L.move m = some v → v.target = some g →
    v.source < g ∧ ∃ r, L.grant g = some r ∧ r.party = v.party ∧ r.resource = v.destination
  goal : ∀ m v, L.move m = some v → (L.slot v.destination).isSome

/-- An exclusive resource records the party and the grant that hold it, for every grant with
authority over it. -/
def Exclusive : Prop :=
  ∀ x s, L.slot x = some s → s.exclusive = true → ∀ g r, L.grant g = some r →
    r.authoritative = true → r.resource = x → s.holder = some r.party ∧ s.active = some g

end Steps

variable {P R G M : Type*} {L L' : Ledger P R G M}

section Order

variable [LinearOrder G]

/-- **Single authority.** A party has at most one grant with authority. -/
theorem Coherent.holds_unique (h : L.Coherent) {g g' : G} {p : P} (hg : L.Holds g p)
    (hg' : L.Holds g' p) : g = g' := by
  obtain ⟨r, hr, ha, rfl⟩ := hg
  obtain ⟨r', hr', ha', hp⟩ := hg'
  have h1 := h.pointed g r hr ha
  have h2 := h.pointed g' r' hr' ha'
  rw [hp, h1] at h2
  simp only [Option.some.injEq, Pointer.mk.injEq] at h2
  exact h2.1

/-- A party that points to no authoritative grant is idle. -/
theorem Coherent.idle_of_pointer (h : L.Coherent) {p : P} {q : Pointer R G}
    (hp : L.party p = some q) (hq : ∀ g r, q.grant = some g → L.grant g = some r →
      r.authoritative = false) : L.Idle p := by
  rintro g ⟨r, hr, ha, rfl⟩
  have h1 := h.pointed g r hr ha
  rw [hp] at h1
  obtain rfl := Option.some.inj h1
  simp [hq g r rfl hr] at ha

/-- Revoking neither makes nor removes a grant. -/
theorem grant_revoke_eq_none {g g' : G} : (L.revoke g).grant g' = none ↔ L.grant g' = none := by
  by_cases hg : g' = g
  · subst hg; simp [revoke]
  · simp [revoke, Function.update_of_ne hg]

end Order

/-! ### What a step does to authority -/

/-- What remains of authority when a grant loses it. -/
theorem holds_revoke [LinearOrder G] {g g' : G} {p : P} :
    (L.revoke g).Holds g' p ↔ g' ≠ g ∧ L.Holds g' p := by
  by_cases hg : g' = g
  · subst hg
    simp only [Holds, revoke, Function.update_self, ne_eq, not_true_eq_false, false_and, iff_false]
    rintro ⟨r, hr, ha, -⟩
    obtain ⟨r', -, rfl⟩ := Option.map_eq_some_iff.mp hr
    simp at ha
  · simp [Holds, revoke, hg]

theorem holds_point [DecidableEq P] {p : P} {q : Pointer R G → Pointer R G} {g : G} {p' : P} :
    (L.point p q).Holds g p' ↔ L.Holds g p' := Iff.rfl

theorem holds_mark [DecidableEq R] {x : R} {f : Slot P G → Slot P G} {g : G} {p : P} :
    (L.mark x f).Holds g p ↔ L.Holds g p := Iff.rfl

/-- Revoking the grant a party points to leaves it idle. -/
theorem Coherent.idle_revoke [LinearOrder G] (h : L.Coherent) {p : P} {q : Pointer R G} {g : G}
    (hp : L.party p = some q) (hq : q.grant = some g) : (L.revoke g).Idle p := by
  intro g' hg'
  obtain ⟨hne, r, hr, ha, rfl⟩ := holds_revoke.mp hg'
  have h1 := h.pointed g' r hr ha
  rw [hp] at h1
  obtain rfl := Option.some.inj h1
  exact hne (Option.some.inj hq)

/-- A known resource stays known when it is marked. -/
theorem isSome_slot_mark [DecidableEq R] {x : R} {f : Slot P G → Slot P G} {y : R} :
    ((L.mark x f).slot y).isSome = (L.slot y).isSome := by
  by_cases hy : y = x
  · subst hy; simp [Ledger.mark]
  · simp [Ledger.mark, Function.update_of_ne hy]

/-- A resource that is known stays known. -/
private theorem isSome_found [DecidableEq R] {x : R} {exclusive : Bool} {y : R}
    (hy : (L.slot y).isSome) :
    ((L.found x exclusive).slot y).isSome := by
  by_cases h : y = x
  · subst h; simp [Ledger.found]
  · simpa [Ledger.found, Function.update_of_ne h] using hy

/-! ### Every step keeps authority single -/

section Order

variable [LinearOrder G]

/-- Revoking a grant keeps the ledger coherent. -/
theorem Coherent.revoke (h : L.Coherent) (g : G) : (L.revoke g).Coherent := by
  have hgrant : ∀ g' r', (L.revoke g).grant g' = some r' → ∃ r, L.grant g' = some r ∧
      r'.party = r.party ∧ r'.resource = r.resource ∧
      (r'.authoritative = true → r.authoritative = true) := by
    intro g' r' hr'
    by_cases hg : g' = g
    · subst hg
      simp only [Ledger.revoke, Function.update_self, Option.map_eq_some_iff] at hr'
      obtain ⟨r, hr, rfl⟩ := hr'
      exact ⟨r, hr, rfl, rfl, by simp⟩
    · simp only [Ledger.revoke, Function.update_of_ne hg] at hr'
      exact ⟨r', hr', rfl, rfl, id⟩
  have hback : ∀ g' r, L.grant g' = some r → ∃ r', (L.revoke g).grant g' = some r' ∧
      r'.party = r.party ∧ r'.resource = r.resource := by
    intro g' r hr
    by_cases hg : g' = g
    · subst hg
      exact ⟨{ r with authoritative := false }, by simp [Ledger.revoke, hr], rfl, rfl⟩
    · exact ⟨r, by simp [Ledger.revoke, Function.update_of_ne hg, hr], rfl, rfl⟩
  refine ⟨?_, ?_, ?_, ?_, ?_, h.goal⟩
  · intro g' r' hr' ha'
    obtain ⟨r, hr, hp, hx, ha⟩ := hgrant g' r' hr'
    rw [hp, hx]
    exact h.pointed g' r hr (ha ha')
  · intro p q g' hp hq
    obtain ⟨r, hr, hrp, hrx⟩ := h.owned p q g' hp hq
    obtain ⟨r', hr', hp', hx'⟩ := hback g' r hr
    exact ⟨r', hr', hp'.trans hrp, hrx.trans (congrArg some hx'.symm)⟩
  · intro g' r' hr'
    obtain ⟨r, hr, -, hx, -⟩ := hgrant g' r' hr'
    rw [hx]
    exact h.placed g' r hr
  · intro m v hv
    obtain ⟨r, hr, hp⟩ := h.source m v hv
    obtain ⟨r', hr', hp', -⟩ := hback _ r hr
    exact ⟨r', hr', hp'.trans hp⟩
  · intro m v g' hv ht
    obtain ⟨hlt, r, hr, hp, hx⟩ := h.target m v g' hv ht
    obtain ⟨r', hr', hp', hx'⟩ := hback g' r hr
    exact ⟨hlt, r', hr', hp'.trans hp, hx'.trans hx⟩

/-- What a resource records is of no concern to coherence. -/
theorem Coherent.mark [DecidableEq R] (h : L.Coherent) (x : R) (f : Slot P G → Slot P G) :
    (L.mark x f).Coherent where
  pointed := h.pointed
  owned := h.owned
  placed g r hr := by rw [isSome_slot_mark]; exact h.placed g r hr
  source := h.source
  target := h.target
  goal m v hv := by rw [isSome_slot_mark]; exact h.goal m v hv

/-- A new resource keeps the ledger coherent. -/
theorem Coherent.found [DecidableEq R] (h : L.Coherent) (x : R) (exclusive : Bool) :
    (L.found x exclusive).Coherent where
  pointed := h.pointed
  owned := h.owned
  placed g r hr := isSome_found (h.placed g r hr)
  source := h.source
  target := h.target
  goal m v hv := isSome_found (h.goal m v hv)

/-- A new party, which points nowhere, keeps the ledger coherent. -/
theorem Coherent.enroll [DecidableEq P] (h : L.Coherent) {p : P} (hp : L.party p = none) :
    (L.enroll p).Coherent := by
  refine ⟨?_, ?_, h.placed, h.source, h.target, h.goal⟩
  · intro g r hr ha
    have hg := h.pointed g r hr ha
    have hne : r.party ≠ p := by rintro rfl; simp [hp] at hg
    simpa [Ledger.enroll, Function.update_of_ne hne] using hg
  · intro p' q g hp' hq
    by_cases hpp : p' = p
    · subst hpp
      simp only [Ledger.enroll, Function.update_self, Option.some.injEq] at hp'
      subst hp'
      simp at hq
    · simp only [Ledger.enroll, Function.update_of_ne hpp] at hp'
      exact h.owned p' q g hp' hq

/-- An idle party may forget the grant it points to. -/
theorem Coherent.forget [DecidableEq P] (h : L.Coherent) {p : P} (hi : L.Idle p)
    {q : Pointer R G → Pointer R G}
    (hq : ∀ x, (q x).grant = none) : (L.point p q).Coherent := by
  refine ⟨?_, ?_, h.placed, h.source, h.target, h.goal⟩
  · intro g r hr ha
    have hne : r.party ≠ p := fun hp => hi g ⟨r, hr, ha, hp⟩
    simpa [Ledger.point, Function.update_of_ne hne] using h.pointed g r hr ha
  · intro p' x g hp' hx
    by_cases hpp : p' = p
    · subst hpp
      simp only [Ledger.point, Function.update_self, Option.map_eq_some_iff] at hp'
      obtain ⟨y, -, rfl⟩ := hp'
      simp [hq] at hx
    · simp only [Ledger.point, Function.update_of_ne hpp] at hp'
      exact h.owned p' x g hp' hx

/-- A new authoritative grant for an idle party, which points to it. -/
theorem Coherent.bind [DecidableEq P] (h : L.Coherent) {p : P} {g : G} {x : R}
    (hp : (L.party p).isSome)
    (hi : L.Idle p) (hg : L.grant g = none) (hx : (L.slot x).isSome) :
    ((L.issue g ⟨p, x, true⟩).point p fun _ => ⟨some g, some x⟩).Coherent := by
  obtain ⟨q0, hq0⟩ := Option.isSome_iff_exists.mp hp
  -- what was granted is not the new grant
  have hold : ∀ g' r, L.grant g' = some r → g' ≠ g := by
    rintro g' r hr rfl
    simp [hg] at hr
  refine ⟨?_, ?_, ?_, ?_, ?_, h.goal⟩
  · intro g' r hr ha
    by_cases hgg : g' = g
    · subst hgg
      simp only [Ledger.point, Ledger.issue, Function.update_self, Option.some.injEq] at hr
      subst hr
      simp [Ledger.point, Ledger.issue, hq0]
    · simp only [Ledger.point, Ledger.issue, Function.update_of_ne hgg] at hr
      have hne : r.party ≠ p := fun hp => hi g' ⟨r, hr, ha, hp⟩
      simpa [Ledger.point, Ledger.issue, Function.update_of_ne hne] using h.pointed g' r hr ha
  · intro p' q g' hp' hq
    by_cases hpp : p' = p
    · subst hpp
      simp only [Ledger.point, Ledger.issue, Function.update_self, hq0, Option.map_some,
        Option.some.injEq] at hp'
      subst hp'
      obtain rfl := Option.some.inj hq
      exact ⟨⟨p', x, true⟩, by simp [Ledger.point, Ledger.issue], rfl, rfl⟩
    · simp only [Ledger.point, Ledger.issue, Function.update_of_ne hpp] at hp'
      obtain ⟨r, hr, hrp, hrx⟩ := h.owned p' q g' hp' hq
      exact ⟨r, by simp [Ledger.point, Ledger.issue, Function.update_of_ne (hold g' r hr), hr],
        hrp, hrx⟩
  · intro g' r hr
    by_cases hgg : g' = g
    · subst hgg
      simp only [Ledger.point, Ledger.issue, Function.update_self, Option.some.injEq] at hr
      subst hr
      exact hx
    · simp only [Ledger.point, Ledger.issue, Function.update_of_ne hgg] at hr
      exact h.placed g' r hr
  · intro m v hv
    obtain ⟨r, hr, hrp⟩ := h.source m v hv
    exact ⟨r, by simp [Ledger.point, Ledger.issue, Function.update_of_ne (hold _ r hr), hr], hrp⟩
  · intro m v g' hv ht
    obtain ⟨hlt, r, hr, hrp, hrx⟩ := h.target m v g' hv ht
    exact ⟨hlt, r, by simp [Ledger.point, Ledger.issue, Function.update_of_ne (hold _ r hr), hr],
      hrp, hrx⟩

/-- A move from the grant a party points to. -/
theorem Coherent.plan [DecidableEq M] (h : L.Coherent) {p : P} {q : Pointer R G} {g : G} {x : R}
    (m : M)
    (hp : L.party p = some q) (hq : q.grant = some g) (hx : (L.slot x).isSome) :
    (L.plan m ⟨p, x, g, none⟩).Coherent := by
  have hmove : ∀ m' v, (L.plan m ⟨p, x, g, none⟩).move m' = some v →
      v = ⟨p, x, g, none⟩ ∨ L.move m' = some v := by
    intro m' v hv
    by_cases hm : m' = m
    · subst hm
      simp only [Ledger.plan, Function.update_self, Option.some.injEq] at hv
      exact .inl hv.symm
    · simp only [Ledger.plan, Function.update_of_ne hm] at hv
      exact .inr hv
  refine ⟨h.pointed, h.owned, h.placed, ?_, ?_, ?_⟩
  · intro m' v hv
    rcases hmove m' v hv with rfl | hv
    · obtain ⟨r, hr, hrp, -⟩ := h.owned p q g hp hq
      exact ⟨r, hr, hrp⟩
    · exact h.source m' v hv
  · intro m' v g' hv ht
    rcases hmove m' v hv with rfl | hv
    · simp at ht
    · exact h.target m' v g' hv ht
  · intro m' v hv
    rcases hmove m' v hv with rfl | hv
    · exact hx
    · exact h.goal m' v hv

/-- A second grant for the party of a move, without authority, newer than every grant. -/
theorem Coherent.prepare [DecidableEq M] (h : L.Coherent) {m : M} {v : Move P R G} {g : G}
    (hm : L.move m = some v) (hg : ∀ g' r, L.grant g' = some r → g' < g) :
    ((L.issue g ⟨v.party, v.destination, false⟩).aim m g).Coherent := by
  -- what was granted stays granted, and only `g` is new
  have hold : ∀ g' r, L.grant g' = some r →
      ((L.issue g ⟨v.party, v.destination, false⟩).aim m g).grant g' = some r := by
    intro g' r hr
    simp [Ledger.aim, Ledger.issue, Function.update_of_ne (hg g' r hr).ne, hr]
  have hgrant : ∀ g' r, ((L.issue g ⟨v.party, v.destination, false⟩).aim m g).grant g' = some r →
      r = ⟨v.party, v.destination, false⟩ ∨ L.grant g' = some r := by
    intro g' r hr
    by_cases hgg : g' = g
    · subst hgg
      simp only [Ledger.aim, Ledger.issue, Function.update_self, Option.some.injEq] at hr
      exact .inl hr.symm
    · simp only [Ledger.aim, Ledger.issue, Function.update_of_ne hgg] at hr
      exact .inr hr
  have hmove : ∀ m' v', ((L.issue g ⟨v.party, v.destination, false⟩).aim m g).move m' = some v' →
      v' = { v with target := some g } ∨ L.move m' = some v' := by
    intro m' v' hv'
    by_cases hmm : m' = m
    · subst hmm
      simp only [Ledger.aim, Ledger.issue, Function.update_self, hm, Option.map_some,
        Option.some.injEq] at hv'
      exact .inl hv'.symm
    · simp only [Ledger.aim, Ledger.issue, Function.update_of_ne hmm] at hv'
      exact .inr hv'
  refine ⟨?_, ?_, ?_, ?_, ?_, ?_⟩
  · intro g' r hr ha
    rcases hgrant g' r hr with rfl | hr
    · simp at ha
    · exact h.pointed g' r hr ha
  · intro p q g' hp hq
    obtain ⟨r, hr, hrp, hrx⟩ := h.owned p q g' hp hq
    exact ⟨r, hold g' r hr, hrp, hrx⟩
  · intro g' r hr
    rcases hgrant g' r hr with rfl | hr
    · exact h.goal m v hm
    · exact h.placed g' r hr
  · intro m' v' hv'
    rcases hmove m' v' hv' with rfl | hv'
    · obtain ⟨r, hr, hrp⟩ := h.source m v hm
      exact ⟨r, hold _ r hr, hrp⟩
    · obtain ⟨r, hr, hrp⟩ := h.source m' v' hv'
      exact ⟨r, hold _ r hr, hrp⟩
  · intro m' v' g' hv' ht
    rcases hmove m' v' hv' with rfl | hv'
    · obtain rfl := Option.some.inj ht
      obtain ⟨r, hr, -⟩ := h.source m v hm
      exact ⟨hg _ r hr, ⟨v.party, v.destination, false⟩, by simp [Ledger.aim, Ledger.issue],
        rfl, rfl⟩
    · obtain ⟨hlt, r, hr, hrp, hrx⟩ := h.target m' v' g' hv' ht
      exact ⟨hlt, r, hold g' r hr, hrp, hrx⟩
  · intro m' v' hv'
    rcases hmove m' v' hv' with rfl | hv'
    · exact h.goal m v hm
    · exact h.goal m' v' hv'

/-- The ledger after the cutover of a move: the target has the authority of the source. -/
def cutover [DecidableEq P] (L : Ledger P R G M) (v : Move P R G) (g : G) : Ledger P R G M :=
  ((L.revoke v.source).empower g).point v.party fun _ => ⟨some g, some v.destination⟩

/-- What a grant is after a cutover. -/
theorem grant_cutover [DecidableEq P] {v : Move P R G} {g g' : G} {r' : Grant P R}
    (hne : v.source ≠ g)
    (hr' : (L.cutover v g).grant g' = some r') :
    ∃ r, L.grant g' = some r ∧ r'.party = r.party ∧ r'.resource = r.resource ∧
      (r'.authoritative = true → g' = g ∨ g' ≠ v.source ∧ r.authoritative = true) := by
  by_cases hg : g' = g
  · subst hg
    simp only [cutover, point, empower, revoke, Function.update_self,
      Function.update_of_ne hne.symm,
      Option.map_eq_some_iff] at hr'
    obtain ⟨r, hr, rfl⟩ := hr'
    exact ⟨r, hr, rfl, rfl, fun _ => .inl rfl⟩
  · by_cases hs : g' = v.source
    · subst hs
      simp only [cutover, point, empower, revoke, Function.update_of_ne hg,
        Function.update_self, Option.map_eq_some_iff] at hr'
      obtain ⟨r, hr, rfl⟩ := hr'
      exact ⟨r, hr, rfl, rfl, by simp⟩
    · simp only [cutover, point, empower, revoke, Function.update_of_ne hg,
        Function.update_of_ne hs] at hr'
      exact ⟨r', hr', rfl, rfl, fun ha => .inr ⟨hs, ha⟩⟩

/-- A grant survives a cutover with its party and its resource. -/
theorem exists_grant_cutover [DecidableEq P] {v : Move P R G} {g g' : G} {r : Grant P R}
    (hne : v.source ≠ g)
    (hr : L.grant g' = some r) :
    ∃ r', (L.cutover v g).grant g' = some r' ∧ r'.party = r.party ∧ r'.resource = r.resource := by
  by_cases hg : g' = g
  · subst hg
    exact ⟨{ r with authoritative := true },
      by simp [cutover, point, empower, revoke, Function.update_of_ne hne.symm, hr], rfl, rfl⟩
  · by_cases hs : g' = v.source
    · subst hs
      exact ⟨{ r with authoritative := false },
        by simp [cutover, point, empower, revoke, Function.update_of_ne hg, hr], rfl, rfl⟩
    · exact ⟨r, by simp [cutover, point, empower, revoke, Function.update_of_ne hg,
        Function.update_of_ne hs, hr], rfl, rfl⟩

/-- The cutover of a prepared move whose source has authority. -/
theorem Coherent.cutover [DecidableEq P] (h : L.Coherent) {m : M} {v : Move P R G} {g : G}
    {rs : Grant P R}
    (hm : L.move m = some v) (ht : v.target = some g) (hs : L.grant v.source = some rs)
    (ha : rs.authoritative = true) : (L.cutover v g).Coherent := by
  obtain ⟨hlt, rt, hrt, hrtp, hrtx⟩ := h.target m v g hm ht
  obtain ⟨rs', hrs', hrsp⟩ := h.source m v hm
  obtain rfl : rs' = rs := Option.some.inj (hrs'.symm.trans hs)
  -- the source is what the party points to, so it is the only one it holds
  have hsource : L.Holds v.source v.party := ⟨rs', hs, ha, hrsp⟩
  have hparty : L.party v.party = some ⟨some v.source, some rs'.resource⟩ := by
    rw [← hrsp]; exact h.pointed v.source rs' hs ha
  refine ⟨?_, ?_, ?_, ?_, ?_, h.goal⟩
  · intro g' r' hr' ha'
    obtain ⟨r, hr, hp, hx, hauth⟩ := grant_cutover hlt.ne hr'
    rcases hauth ha' with rfl | ⟨hgs, hra⟩
    · obtain rfl : r = rt := Option.some.inj (hr.symm.trans hrt)
      rw [hp, hx, hrtp, hrtx]
      simp [Ledger.cutover, Ledger.point, empower, Ledger.revoke, hparty]
    · have hne : r'.party ≠ v.party := fun hpp =>
        hgs (h.holds_unique ⟨r, hr, hra, hp.symm.trans hpp⟩ hsource)
      simp only [Ledger.cutover, Ledger.point, empower, Ledger.revoke, Function.update_of_ne hne]
      rw [hp, hx]
      exact h.pointed g' r hr hra
  · intro p q g' hp hq
    by_cases hpp : p = v.party
    · subst hpp
      simp only [Ledger.cutover, Ledger.point, empower, Ledger.revoke, Function.update_self, hparty,
        Option.map_some, Option.some.injEq] at hp
      subst hp
      obtain rfl := Option.some.inj hq
      obtain ⟨r', hr', hrp, hrx⟩ := exists_grant_cutover hlt.ne hrt
      exact ⟨r', hr', hrp.trans hrtp, congrArg some (hrx.trans hrtx).symm⟩
    · simp only [Ledger.cutover, Ledger.point, empower, Ledger.revoke,
        Function.update_of_ne hpp] at hp
      obtain ⟨r, hr, hrp, hrx⟩ := h.owned p q g' hp hq
      obtain ⟨r', hr', hp', hx'⟩ := exists_grant_cutover hlt.ne hr
      exact ⟨r', hr', hp'.trans hrp, hrx.trans (congrArg some hx'.symm)⟩
  · intro g' r' hr'
    obtain ⟨r, hr, -, hx, -⟩ := grant_cutover hlt.ne hr'
    rw [hx]
    exact h.placed g' r hr
  · intro m' v' hv'
    obtain ⟨r, hr, hrp⟩ := h.source m' v' hv'
    obtain ⟨r', hr', hp', -⟩ := exists_grant_cutover hlt.ne hr
    exact ⟨r', hr', hp'.trans hrp⟩
  · intro m' v' g' hv' ht'
    obtain ⟨hlt', r, hr, hrp, hrx⟩ := h.target m' v' g' hv' ht'
    obtain ⟨r', hr', hp', hx'⟩ := exists_grant_cutover hlt.ne hr
    exact ⟨hlt', r', hr', hp'.trans hrp, hx'.trans hrx⟩

end Order

/-! ### When a step keeps exclusive resources exclusive -/

/-- Every authoritative grant over a resource is the one it records. -/
def Recorded (L : Ledger P R G M) (x : R) : Prop :=
  ∀ s, L.slot x = some s → ∀ g r, L.grant g = some r → r.authoritative = true → r.resource = x →
    s.holder = some r.party ∧ s.active = some g

/-- No grant over a resource has authority. -/
def Unheld (L : Ledger P R G M) (x : R) : Prop :=
  ∀ g r, L.grant g = some r → r.authoritative = true → r.resource ≠ x

/-- Only one party has authority over a resource. -/
def OnlyBy (L : Ledger P R G M) (x : R) (p : P) : Prop :=
  ∀ g r, L.grant g = some r → r.authoritative = true → r.resource = x → r.party = p

/-- A resource that only an idle party could hold is held by nobody. -/
theorem OnlyBy.unheld {x : R} {p : P} (h : L.OnlyBy x p) (hi : L.Idle p) : L.Unheld x :=
  fun g r hr ha hx => hi g ⟨r, hr, ha, h g r hr ha hx⟩

/-- Revoking a grant gives nobody a hold on a resource. -/
theorem OnlyBy.revoke [LinearOrder G] {x : R} {p : P} (h : L.OnlyBy x p) (g : G) :
    (L.revoke g).OnlyBy x p := by
  intro g' r' hr' ha' hx
  by_cases hg : g' = g
  · subst hg
    simp only [Ledger.revoke, Function.update_self, Option.map_eq_some_iff] at hr'
    obtain ⟨r, -, rfl⟩ := hr'
    simp at ha'
  · simp only [Ledger.revoke, Function.update_of_ne hg] at hr'
    exact h g' r' hr' ha' hx

/-- Exclusivity, told for one resource at a time. -/
theorem exclusive_iff_recorded :
    L.Exclusive ↔ ∀ x s, L.slot x = some s → s.exclusive = true → L.Recorded x := by
  constructor
  · intro h x s hs he s' hs' g r hr ha hx
    obtain rfl := Option.some.inj (hs.symm.trans hs')
    exact h x s hs he g r hr ha hx
  · intro h x s hs he g r hr ha hx
    exact h x s hs he s hs g r hr ha hx

/-- A grant that loses its authority need not be recorded any more. -/
theorem Recorded.revoke [LinearOrder G] {x : R} (h : L.Recorded x) (g : G) :
    (L.revoke g).Recorded x := by
  intro s hs g' r' hr' ha' hx
  by_cases hg : g' = g
  · subst hg
    simp only [Ledger.revoke, Function.update_self, Option.map_eq_some_iff] at hr'
    obtain ⟨r, -, rfl⟩ := hr'
    simp at ha'
  · simp only [Ledger.revoke, Function.update_of_ne hg] at hr'
    exact h s hs g' r' hr' ha' hx

/-- A mark that keeps the holder and the grant of a resource. -/
theorem Recorded.mark [DecidableEq R] {x y : R} {f : Slot P G → Slot P G} (h : L.Recorded y)
    (hf : ∀ s, (f s).holder = s.holder ∧ (f s).active = s.active) : (L.mark x f).Recorded y := by
  intro s hs g r hr ha hy
  by_cases hyx : y = x
  · subst hyx
    simp only [Ledger.mark, Function.update_self, Option.map_eq_some_iff] at hs
    obtain ⟨s', hs', rfl⟩ := hs
    rw [(hf s').1, (hf s').2]
    exact h s' hs' g r hr ha hy
  · simp only [Ledger.mark, Function.update_of_ne hyx] at hs
    exact h s hs g r hr ha hy

/-- A new resource leaves what the others record as it is. -/
theorem Recorded.found [DecidableEq R] {x y : R} {exclusive : Bool} (h : L.Recorded y)
    (hne : y ≠ x) :
    (L.found x exclusive).Recorded y := by
  intro s hs
  simp only [Ledger.found, Function.update_of_ne hne] at hs
  exact h s hs

/-- Where nobody holds a resource there is nothing to record. -/
theorem Unheld.recorded {x : R} (h : L.Unheld x) : L.Recorded x :=
  fun _ _ g r hr ha hx => absurd hx (h g r hr ha)

/-- Revoking a grant keeps exclusive resources recorded. -/
theorem Exclusive.revoke [LinearOrder G] (h : L.Exclusive) (g : G) : (L.revoke g).Exclusive :=
  exclusive_iff_recorded.mpr fun x s hs he =>
    (exclusive_iff_recorded.mp h x s hs he).revoke g

/-- Marking a resource keeps the others; the marked one is up to the mark. -/
theorem Exclusive.mark [DecidableEq R] (h : L.Exclusive) {x : R} {f : Slot P G → Slot P G}
    (hx : ∀ s, L.slot x = some s → (f s).exclusive = true → ∀ g r, L.grant g = some r →
      r.authoritative = true → r.resource = x →
      (f s).holder = some r.party ∧ (f s).active = some g) : (L.mark x f).Exclusive := by
  intro y s hs he g r hr ha hy
  by_cases hyx : y = x
  · subst hyx
    simp only [Ledger.mark, Function.update_self, Option.map_eq_some_iff] at hs
    obtain ⟨s', hs', rfl⟩ := hs
    exact hx s' hs' he g r hr ha hy
  · simp only [Ledger.mark, Function.update_of_ne hyx] at hs
    exact h y s hs he g r hr ha hy

/-- A resource that nobody holds may forget its holder. -/
theorem Exclusive.release [DecidableEq R] (h : L.Exclusive) {x : R} {f : Slot P G → Slot P G}
    (hu : ∀ s, L.slot x = some s → (f s).exclusive = true → L.Unheld x) :
    (L.mark x f).Exclusive :=
  h.mark fun s hs he g r hr ha hx => absurd hx (hu s hs he g r hr ha)

/-- A party that is the recorded holder of an exclusive resource, or of none, and has been made
idle: nobody holds the resource. -/
theorem Exclusive.unheld (h : L.Exclusive) {x : R} {s : Slot P G} {p : P}
    (hs : L.slot x = some s) (he : s.exclusive = true) (hp : s.holder = none ∨ s.holder = some p)
    (hi : L.Idle p) : L.Unheld x := by
  intro g r hr ha hx
  obtain ⟨hholder, -⟩ := h x s hs he g r hr ha hx
  rcases hp with hp | hp
  · simp [hp] at hholder
  · rw [hp] at hholder
    exact hi g ⟨r, hr, ha, (Option.some.inj hholder).symm⟩

/-- A new resource that no grant names. -/
theorem Exclusive.found [DecidableEq R] (h : L.Exclusive) {x : R} {exclusive : Bool}
    (hu : L.Unheld x) :
    (L.found x exclusive).Exclusive := by
  intro y s hs he g r hr ha hy
  by_cases hyx : y = x
  · subst hyx
    exact absurd hy (hu g r hr ha)
  · simp only [Ledger.found, Function.update_of_ne hyx] at hs
    exact h y s hs he g r hr ha hy

/-- A new authoritative grant over a resource nobody else holds, which records it. -/
theorem Exclusive.bind [DecidableEq P] [DecidableEq R] [LinearOrder G] (h : L.Exclusive) {p : P}
    {g : G} {x : R} {q : Pointer R G → Pointer R G}
    (hu : ∀ s, L.slot x = some s → s.exclusive = true → L.Unheld x) :
    (((L.issue g ⟨p, x, true⟩).point p q).mark x fun s =>
      { s with holder := some p, active := some g }).Exclusive := by
  intro y s hs he g' r hr ha hy
  by_cases hyx : y = x
  · subst hyx
    simp only [Ledger.mark, Ledger.point, Ledger.issue, Function.update_self,
      Option.map_eq_some_iff] at hs
    obtain ⟨s', hs', rfl⟩ := hs
    by_cases hg : g' = g
    · subst hg
      simp only [Ledger.mark, Ledger.point, Ledger.issue, Function.update_self,
        Option.some.injEq] at hr
      subst hr
      exact ⟨rfl, rfl⟩
    · simp only [Ledger.mark, Ledger.point, Ledger.issue, Function.update_of_ne hg] at hr
      exact absurd hy (hu s' hs' he g' r hr ha)
  · simp only [Ledger.mark, Ledger.point, Ledger.issue, Function.update_of_ne hyx] at hs
    have hg : g' ≠ g := by
      rintro rfl
      simp only [Ledger.mark, Ledger.point, Ledger.issue, Function.update_self,
        Option.some.injEq] at hr
      subst hr
      exact hyx hy.symm
    simp only [Ledger.mark, Ledger.point, Ledger.issue, Function.update_of_ne hg] at hr
    exact h y s hs he g' r hr ha hy

/-- Without the grant it records nobody holds an exclusive resource. -/
theorem Exclusive.unheld_revoke [LinearOrder G] (h : L.Exclusive) {x : R} {s : Slot P G} {g : G}
    (hs : L.slot x = some s) (he : s.exclusive = true) (ha : ∀ g', s.active = some g' → g' = g) :
    (L.revoke g).Unheld x := by
  intro g' r' hr' ha' hx
  have hg : L.Holds g' r'.party ∧ g' ≠ g :=
    (holds_revoke.mp ⟨r', hr', ha', rfl⟩).symm
  by_cases hne : g' = g
  · exact hg.2 hne
  · simp only [Ledger.revoke, Function.update_of_ne hne] at hr'
    exact hg.2 (ha g' (h x s hs he g' r' hr' ha' hx).2)

/-- A grant without authority. -/
theorem Exclusive.issue [LinearOrder G] (h : L.Exclusive) {g : G} {r : Grant P R}
    (hr : r.authoritative = false) :
    (L.issue g r).Exclusive := by
  intro x s hs he g' r' hr' ha' hx
  by_cases hg : g' = g
  · subst hg
    simp only [Ledger.issue, Function.update_self, Option.some.injEq] at hr'
    subst hr'
    simp [hr] at ha'
  · simp only [Ledger.issue, Function.update_of_ne hg] at hr'
    exact h x s hs he g' r' hr' ha' hx

/-- A cutover to a resource that nobody else holds: the source forgets its holder
and the destination records the new one. -/
theorem Exclusive.cutover [DecidableEq P] [DecidableEq R] [LinearOrder G] (h : L.Exclusive)
    (hc : L.Coherent) {m : M} {v : Move P R G} {g : G}
    {rs : Grant P R} {f : Slot P G → Slot P G} (hm : L.move m = some v) (ht : v.target = some g)
    (hs : L.grant v.source = some rs) (ha : rs.authoritative = true)
    (hf : ∀ s, (f s).exclusive = s.exclusive)
    (hd : ∀ s, L.slot v.destination = some s → s.exclusive = true →
      L.OnlyBy v.destination v.party) :
    (((L.cutover v g).mark rs.resource f).mark v.destination fun s =>
      { s with holder := some v.party, active := some g }).Exclusive := by
  obtain ⟨hlt, rt, hrt, hrtp, hrtx⟩ := hc.target m v g hm ht
  obtain ⟨rs', hrs', hrsp⟩ := hc.source m v hm
  obtain rfl : rs' = rs := Option.some.inj (hrs'.symm.trans hs)
  have hsource : L.Holds v.source v.party := ⟨rs', hs, ha, hrsp⟩
  intro y s hy he g' r' hr' ha' hx
  obtain ⟨r, hr, hp, hx', hauth⟩ := grant_cutover hlt.ne hr'
  rcases hauth ha' with rfl | ⟨hgs, hra⟩
  · -- the target is over the destination, which records it
    obtain rfl : r = rt := Option.some.inj (hr.symm.trans hrt)
    obtain rfl : y = v.destination := (hx.symm.trans hx').trans hrtx
    simp only [Ledger.mark, Function.update_self, Option.map_eq_some_iff] at hy
    obtain ⟨_, -, rfl⟩ := hy
    exact ⟨congrArg some (hp.trans hrtp).symm, rfl⟩
  · by_cases hyd : y = v.destination
    · -- another grant over the destination would be of the same party
      exfalso
      subst hyd
      simp only [Ledger.mark, Function.update_self, Option.map_eq_some_iff] at hy
      obtain ⟨s1, hs1, rfl⟩ := hy
      have hslot : ∃ s0, L.slot v.destination = some s0 ∧ s0.exclusive = true := by
        by_cases hsrc : v.destination = rs'.resource
        · rw [← hsrc, Function.update_self, Option.map_eq_some_iff] at hs1
          obtain ⟨s0, hs0, rfl⟩ := hs1
          exact ⟨s0, hs0, (hf s0).symm.trans he⟩
        · rw [Function.update_of_ne hsrc] at hs1
          exact ⟨s1, hs1, he⟩
      obtain ⟨s0, hs0, he0⟩ := hslot
      have hparty := hd s0 hs0 he0 g' r hr hra (hx'.symm.trans hx)
      exact hgs (hc.holds_unique ⟨r, hr, hra, hparty⟩ hsource)
    · simp only [Ledger.mark, Function.update_of_ne hyd] at hy
      by_cases hys : y = rs'.resource
      · -- the source had one holder, and it is gone
        exfalso
        subst hys
        rw [Function.update_self, Option.map_eq_some_iff] at hy
        obtain ⟨s0, hs0, rfl⟩ := hy
        rw [hf] at he
        have h1 := (h _ s0 hs0 he g' r hr hra (hx'.symm.trans hx)).2
        have h2 := (h _ s0 hs0 he v.source rs' hs ha rfl).2
        exact hgs (Option.some.inj (h1.symm.trans h2))
      · rw [Function.update_of_ne hys] at hy
        rw [hp]
        exact h y s hy he g' r hr hra (hx'.symm.trans hx)

/-! ### What becomes of pointers and authority -/

/-- A party points where it did, nowhere, or to a grant it has authority through; and it no longer
points to a grant that lost its authority. -/
structure Sheds (L L' : Ledger P R G M) : Prop where
  points : ∀ p q', L'.party p = some q' → q'.grant = none ∨
    (∃ q, L.party p = some q ∧ q'.grant = q.grant) ∨ ∃ g, q'.grant = some g ∧ L'.Holds g p
  holds : ∀ g p, L.Holds g p → L'.Holds g p ∨ ∀ q', L'.party p = some q' → q'.grant ≠ some g

/-- Where the pointers stay, it is enough that nobody gains authority. -/
theorem Sheds.of_party (hparty : L'.party = L.party)
    (hholds : ∀ g p, L.Holds g p → L'.Holds g p) : Sheds L L' where
  points _ q' hq' := .inr (.inl ⟨q', hparty ▸ hq', rfl⟩)
  holds g p hg := .inl (hholds g p hg)

/-- A party that points elsewhere than before; the others point where they did. -/
theorem point_cases [DecidableEq P] {p p' : P} {q : Pointer R G → Pointer R G} {q' : Pointer R G}
    (h : (L.point p q).party p' = some q') :
    (p' = p ∧ ∃ w, L.party p = some w ∧ q' = q w) ∨ p' ≠ p ∧ L.party p' = some q' := by
  by_cases hp : p' = p
  · subst hp
    simp only [point, Function.update_self, Option.map_eq_some_iff] at h
    obtain ⟨w, hw, rfl⟩ := h
    exact .inl ⟨rfl, w, hw, rfl⟩
  · simp only [point, Function.update_of_ne hp] at h
    exact .inr ⟨hp, h⟩

/-- The grant a party points to, or no grant at all, is of no other party. -/
theorem Coherent.party_eq [LinearOrder G] (h : L.Coherent) {p p' : P} {q : Pointer R G} {g : G}
    (hp : L.party p = some q) (hg : q.grant = some g ∨ L.grant g = none) (hh : L.Holds g p') :
    p' = p := by
  obtain ⟨r, hr, -, rfl⟩ := hh
  obtain hg | hg := hg
  · obtain ⟨r', hr', hp', -⟩ := h.owned p q g hp hg
    rw [hr, Option.some.injEq] at hr'
    rw [hr', hp']
  · rw [hr] at hg
    cases hg

/-- A party loses its grant and points nowhere. -/
theorem Coherent.sheds_release [DecidableEq P] [DecidableEq R] [LinearOrder G] (h : L.Coherent)
    {p : P} {q : Pointer R G} {g : G}
    (hp : L.party p = some q) (hg : q.grant = some g ∨ L.grant g = none) (x : R)
    (f : Slot P G → Slot P G) {e : Pointer R G → Pointer R G} (he : ∀ w, (e w).grant = none) :
    Sheds L (((L.revoke g).mark x f).point p e) where
  points p' q' hq' := by
    obtain ⟨-, w, -, rfl⟩ | ⟨-, hold⟩ := point_cases hq'
    · exact .inl (he w)
    · exact .inr (.inl ⟨q', hold, rfl⟩)
  holds g' p' hh := by
    by_cases hne : g' = g
    · subst hne
      obtain rfl := h.party_eq hp hg hh
      refine .inr fun q' hq' => ?_
      obtain ⟨-, w, -, rfl⟩ | ⟨hne, -⟩ := point_cases hq'
      · rw [he]
        exact nofun
      · exact absurd rfl hne
    · exact .inl (holds_point.mpr (holds_mark.mpr (holds_revoke.mpr ⟨hne, hh⟩)))

/-- Issuing a grant says nothing about another one. -/
theorem holds_issue_of_ne [LinearOrder G] {g g' : G} {r : Grant P R} {p : P} (hne : g' ≠ g) :
    (L.issue g r).Holds g' p ↔ L.Holds g' p := by
  simp only [Holds, issue, Function.update_of_ne hne]

/-- A party has authority through a new grant, and points to it. -/
theorem sheds_bind [DecidableEq P] [DecidableEq R] [LinearOrder G] {p : P} {g : G} {x : R}
    (hg : L.grant g = none) (f : Slot P G → Slot P G) :
    Sheds L (((L.issue g ⟨p, x, true⟩).point p fun _ => ⟨some g, some x⟩).mark x f) where
  points p' q' hq' := by
    obtain ⟨rfl, w, -, rfl⟩ | ⟨-, hold⟩ := point_cases (L := L.issue g ⟨p, x, true⟩) hq'
    · exact .inr (.inr ⟨g, rfl, ⟨_, Function.update_self .., rfl, rfl⟩⟩)
    · exact .inr (.inl ⟨q', hold, rfl⟩)
  holds g' p' hh := by
    refine .inl (holds_mark.mpr (holds_point.mpr ((holds_issue_of_ne ?_).mpr hh)))
    rintro rfl
    obtain ⟨r, hr, -⟩ := hh
    rw [hg] at hr
    cases hr

/-- A party loses its grant and has authority through a new one, which it points to. -/
theorem Coherent.sheds_rebind [DecidableEq P] [DecidableEq R] [LinearOrder G] (h : L.Coherent)
    {p : P} {q : Pointer R G} {g n : G} {x y : R}
    (hp : L.party p = some q) (hg : q.grant = some g ∨ L.grant g = none) (hn : L.grant n = none)
    (f f' : Slot P G → Slot P G) :
    Sheds L (((((L.revoke g).mark y f).issue n ⟨p, x, true⟩).point p
      fun _ => ⟨some n, some x⟩).mark x f') := by
  have hn' : ((L.revoke g).mark y f).grant n = none := grant_revoke_eq_none.mpr hn
  have hb := sheds_bind (L := (L.revoke g).mark y f) (p := p) (x := x) hn' f'
  refine ⟨fun p' q' hq' => hb.points p' q' hq', fun g' p' hh => ?_⟩
  by_cases hne : g' = g
  · subst hne
    obtain rfl := h.party_eq hp hg hh
    refine .inr fun q' hq' hgrant => ?_
    obtain ⟨-, w, -, rfl⟩ | ⟨hne, -⟩ :=
      point_cases (L := ((L.revoke g').mark y f).issue n ⟨p', x, true⟩) hq'
    · obtain rfl := Option.some.inj hgrant
      obtain ⟨r, hr, -⟩ := hh
      rw [hn] at hr
      cases hr
    · exact absurd rfl hne
  · exact hb.holds g' p' (holds_mark.mpr (holds_revoke.mpr ⟨hne, hh⟩))

/-- A grant without authority. -/
theorem sheds_prepare [LinearOrder G] [DecidableEq M] {g : G} {r : Grant P R} {m : M}
    (hg : L.grant g = none) :
    Sheds L ((L.issue g r).aim m g) :=
  .of_party rfl fun g' p hh => (holds_issue_of_ne (by
    rintro rfl
    obtain ⟨r, hr, -⟩ := hh
    rw [hg] at hr
    cases hr)).mpr hh

/-- A new party holds nothing. -/
theorem sheds_enroll [DecidableEq P] {p : P} : Sheds L (L.enroll p) where
  points p' q' hq' := by
    by_cases hp : p' = p
    · subst hp
      simp only [enroll, Function.update_self, Option.some.injEq] at hq'
      exact .inl (by rw [← hq'])
    · simp only [enroll, Function.update_of_ne hp] at hq'
      exact .inr (.inl ⟨q', hq', rfl⟩)
  holds g p' hh := .inl hh

/-- A grant without authority is revoked. -/
theorem sheds_revoke [LinearOrder G] {g : G}
    (hg : ∀ r, L.grant g = some r → r.authoritative = false) :
    Sheds L (L.revoke g) :=
  .of_party rfl fun g' p hh => holds_revoke.mpr (And.intro (by
    rintro rfl
    obtain ⟨r, hr, ha, -⟩ := hh
    rw [hg r hr] at ha
    cases ha) hh)

/-- Giving authority to a grant says nothing about another one. -/
theorem holds_empower_of_ne [LinearOrder G] {g g' : G} {p : P} (hne : g' ≠ g) :
    (L.empower g).Holds g' p ↔ L.Holds g' p := by
  simp only [Holds, empower, Function.update_of_ne hne]

/-- No grant loses its authority to one that gets it. -/
theorem holds_empower [LinearOrder G] {g g' : G} {p : P} (h : L.Holds g p) :
    (L.empower g').Holds g p := by
  obtain rfl | hne := eq_or_ne g g'
  · obtain ⟨r, hr, -, hp⟩ := h
    refine ⟨{ r with authoritative := true }, ?_, rfl, hp⟩
    simp only [empower, Function.update_self, hr, Option.map_some]
  · exact (holds_empower_of_ne hne).mpr h

/-- After a cutover the party has authority through the target. -/
theorem Coherent.holds_cutover [DecidableEq P] [LinearOrder G] (h : L.Coherent) {m : M}
    {v : Move P R G} {g : G}
    (hm : L.move m = some v) (ht : v.target = some g) : (L.cutover v g).Holds g v.party := by
  obtain ⟨hlt, rt, hrt, hpt, -⟩ := h.target m v g hm ht
  have hne : g ≠ v.source := hlt.ne'
  refine ⟨{ rt with authoritative := true }, ?_, rfl, hpt⟩
  simp [Ledger.cutover, Ledger.point, Ledger.empower, Ledger.revoke, Function.update_of_ne hne,
    hrt]

/-- After a cutover the party points to the target, and has authority through it. -/
theorem Coherent.sheds_cutover [DecidableEq P] [DecidableEq R] [LinearOrder G] (h : L.Coherent)
    {m : M} {v : Move P R G} {g : G} {x y : R}
    (hm : L.move m = some v) (ht : v.target = some g) (f f' : Slot P G → Slot P G) :
    Sheds L (((L.cutover v g).mark x f).mark y f') := by
  obtain ⟨hlt, rt, hrt, hpt, -⟩ := h.target m v g hm ht
  obtain ⟨rs, hrs, hps⟩ := h.source m v hm
  have hheld := h.holds_cutover hm ht
  refine ⟨fun p' q' hq' => ?_, fun g' p' hh => ?_⟩
  · obtain ⟨rfl, w, -, rfl⟩ | ⟨-, hold⟩ := point_cases (L := (L.revoke v.source).empower g) hq'
    · exact .inr (.inr ⟨g, rfl, hheld⟩)
    · exact .inr (.inl ⟨q', hold, rfl⟩)
  · by_cases hg : g' = g
    · subst hg
      obtain ⟨r, hr, -, rfl⟩ := hh
      rw [hrt, Option.some.injEq] at hr
      rw [← hr, hpt]
      exact .inl hheld
    by_cases hs : g' = v.source
    · -- the source is the grant of the party, which points to the target now
      subst hs
      obtain ⟨r, hr, ha, rfl⟩ := hh
      rw [hrs, Option.some.injEq] at hr
      subst hr
      refine .inr fun q' hq' hgrant => ?_
      obtain ⟨-, w, -, rfl⟩ | ⟨hne, -⟩ := point_cases (L := (L.revoke v.source).empower g) hq'
      · exact hlt.ne' (Option.some.inj hgrant)
      · exact hne hps
    · left
      refine holds_mark.mpr (holds_mark.mpr (holds_point.mpr ?_))
      exact (holds_empower_of_ne hg).mpr (holds_revoke.mpr ⟨hs, hh⟩)

/-! ### What resources record -/

/-- A grant that a resource records is one over the resource. -/
def Noted (L : Ledger P R G M) : Prop :=
  ∀ x s g, L.slot x = some s → s.active = some g → ∃ r, L.grant g = some r ∧ r.resource = x

/-- Grants stay with their resource, and what is newly recorded is a grant over the resource. -/
theorem Noted.step (h : L.Noted)
    (hg : ∀ g r, L.grant g = some r → ∃ r', L'.grant g = some r' ∧ r'.resource = r.resource)
    (hs : ∀ x s' g, L'.slot x = some s' → s'.active = some g →
      (∃ s, L.slot x = some s ∧ s.active = some g) ∨ ∃ r, L'.grant g = some r ∧ r.resource = x) :
    L'.Noted := by
  intro x s' g hs' hactive
  obtain ⟨s, hslot, ha⟩ | hnew := hs x s' g hs' hactive
  · obtain ⟨r, hr, rfl⟩ := h x s g hslot ha
    exact hg g r hr
  · exact hnew

/-- Revoking a grant leaves what resources record to the point. -/
theorem Noted.revoke [LinearOrder G] (h : L.Noted) (g : G) : (L.revoke g).Noted := by
  refine h.step (fun g' r hr => ?_) fun x s g' hs ha => .inl ⟨s, hs, ha⟩
  obtain rfl | hne := eq_or_ne g' g
  · exact ⟨{ r with authoritative := false }, by simp [Ledger.revoke, hr], rfl⟩
  · exact ⟨r, by simp [Ledger.revoke, Function.update_of_ne hne, hr], rfl⟩

/-- A mark that keeps or forgets the grant of a resource, or records a grant over it. -/
theorem Noted.mark [DecidableEq R] (h : L.Noted) {x : R} {f : Slot P G → Slot P G}
    (hf : ∀ s g, L.slot x = some s → (f s).active = some g → s.active = some g ∨
      ∃ r, L.grant g = some r ∧ r.resource = x) : (L.mark x f).Noted := by
  refine h.step (fun g r hr => ⟨r, hr, rfl⟩) fun y s' g hs' ha => ?_
  obtain rfl | hne := eq_or_ne y x
  · simp only [Ledger.mark, Function.update_self, Option.map_eq_some_iff] at hs'
    obtain ⟨s, hs, rfl⟩ := hs'
    exact (hf s g hs ha).imp_left fun hsame => ⟨s, hs, hsame⟩
  · simp only [Ledger.mark, Function.update_of_ne hne] at hs'
    exact .inl ⟨s', hs', ha⟩

/-- A new grant. -/
theorem Noted.issue [LinearOrder G] (h : L.Noted) {g : G} {r : Grant P R} (hg : L.grant g = none) :
    (L.issue g r).Noted := by
  refine h.step (fun g' r' hr' => ⟨r', ?_, rfl⟩) fun x s g' hs ha => .inl ⟨s, hs, ha⟩
  have hne : g' ≠ g := by
    rintro rfl
    exact absurd (hg.symm.trans hr') nofun
  simp [Ledger.issue, Function.update_of_ne hne, hr']

/-- A new resource records nothing. -/
theorem Noted.found [DecidableEq R] (h : L.Noted) (x : R) (exclusive : Bool) :
    (L.found x exclusive).Noted := by
  refine h.step (fun g r hr => ⟨r, hr, rfl⟩) fun y s g hs ha => ?_
  obtain rfl | hne := eq_or_ne y x
  · simp only [Ledger.found, Function.update_self, Option.some.injEq] at hs
    subst hs
    cases ha
  · simp only [Ledger.found, Function.update_of_ne hne] at hs
    exact .inl ⟨s, hs, ha⟩

/-- A cutover leaves what resources record to the point. -/
theorem Noted.cutover [DecidableEq P] [LinearOrder G] (h : L.Noted) {v : Move P R G} {g : G}
    (hne : v.source ≠ g) :
    (L.cutover v g).Noted := by
  refine h.step (fun g' r hr => ?_) fun x s g' hs ha => .inl ⟨s, hs, ha⟩
  obtain ⟨r', hr', -, hresource⟩ := exists_grant_cutover hne hr
  exact ⟨r', hr', hresource⟩

end Ledger

end Custody
