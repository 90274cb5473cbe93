import Mathlib.Data.List.Sort
import Mathlib.Logic.Function.Basic

/-!
# Rosters and deeds

Who holds what, kept twice: every member has a deed that names its holder, and every holder has a
roster that lists its members. Members are struck off the roster when they cease, but their deeds
remain.

`Listed` is what survives every change of the two: rosters are sorted, they list only members held
by their holder, and all of these that are in standing. `Closed` is the full correspondence: a
roster lists nothing else, and every deed is of the generation of its holder. It is lost when a
member that has ceased is conveyed, and when its holder gets a new generation.
-/


namespace Rosters

variable {K M G : Type*}

/-- Who holds a member, under which generation of the holder, and whether it is in standing. -/
@[ext]
structure Deed (K G : Type*) where
  holder : K
  generation : G
  standing : Bool

/-- The members listed under one key, and the generation of the list. -/
@[ext]
structure Roster (M G : Type*) where
  members : List M
  generation : G

/-- What each member holds as its deed, and the roster of each key. -/
@[ext]
structure Registry (K M G : Type*) where
  deed : M → Option (Deed K G)
  roster : K → Option (Roster M G)

section Roster

variable [LinearOrder M] {m m' : M} {c : Roster M G}

/-- The roster with `m` inserted at its place in the order. -/
def Roster.enrol (m : M) (c : Roster M G) : Roster M G :=
  { c with members := (c.members ++ [m]).insertionSort (· ≤ ·) }

/-- The roster without `m`. -/
def Roster.strike (m : M) (c : Roster M G) : Roster M G :=
  { c with members := c.members.filter (· ≠ m) }

@[simp]
theorem Roster.generation_enrol : (c.enrol m).generation = c.generation := rfl

@[simp]
theorem Roster.generation_strike : (c.strike m).generation = c.generation := rfl

/-- The members of a roster after one more is enrolled. -/
@[simp]
theorem Roster.mem_enrol : m' ∈ (c.enrol m).members ↔ m' ∈ c.members ∨ m' = m := by
  simp [enrol]

/-- The members of a roster after one is struck off. -/
@[simp]
theorem Roster.mem_strike : m' ∈ (c.strike m).members ↔ m' ∈ c.members ∧ m' ≠ m := by
  simp [strike]

/-- Striking a member off keeps the order. -/
theorem Roster.sorted_strike (h : c.members.Pairwise (· < ·)) :
    (c.strike m).members.Pairwise (· < ·) :=
  h.filter _

/-- A roster stays strictly sorted if a member is enrolled that it does not list. -/
theorem Roster.sorted_enrol (h : c.members.Pairwise (· < ·)) (hm : m ∉ c.members) :
    (c.enrol m).members.Pairwise (· < ·) := by
  have hle : (c.enrol m).members.Pairwise (· ≤ ·) := List.pairwise_insertionSort _ _
  have hnodup : (c.enrol m).members.Nodup := by
    refine (List.perm_insertionSort _ _).nodup_iff.mpr ?_
    rw [List.nodup_append_comm, List.singleton_append, List.nodup_cons]
    exact ⟨hm, h.imp ne_of_lt⟩
  exact (hle.and hnodup).imp fun hab => lt_of_le_of_ne hab.1 hab.2

end Roster

namespace Registry

section Changes

variable [LinearOrder M] [DecidableEq K]

/-! ### Changes -/

/-- A deed is made out. -/
def record (R : Registry K M G) (m : M) (d : Deed K G) : Registry K M G :=
  { R with deed := Function.update R.deed m (some d) }

/-- A roster is changed. -/
def amend (R : Registry K M G) (k : K) (f : Roster M G → Roster M G) : Registry K M G :=
  { R with roster := Function.update R.roster k ((R.roster k).map f) }

/-- A new holder. -/
def found (R : Registry K M G) (k : K) (g : G) : Registry K M G :=
  { R with roster := Function.update R.roster k (some ⟨[], g⟩) }

/-- A new member. -/
def enter (R : Registry K M G) (m : M) (k : K) (g : G) : Registry K M G :=
  (R.amend k (.enrol m)).record m ⟨k, g, true⟩

/-- A member ceases. -/
def cease (R : Registry K M G) (m : M) (d : Deed K G) : Registry K M G :=
  (R.amend d.holder (.strike m)).record m { d with standing := false }

/-- A member goes to another holder. -/
def convey (R : Registry K M G) (m : M) (d : Deed K G) (k : K) (g : G) : Registry K M G :=
  ((R.amend d.holder (.strike m)).amend k (.enrol m)).record m ⟨k, g, d.standing⟩

/-- A holder gets a new generation, and so do the deeds of the members it lists. -/
def renew (R : Registry K M G) (k : K) (members : List M) (g : G) : Registry K M G where
  deed m := (R.deed m).map fun d => if m ∈ members then { d with generation := g } else d
  roster := (R.amend k fun c => { c with generation := g }).roster

end Changes

variable {R : Registry K M G} {m : M} {k : K}

theorem deed_record [LinearOrder M] (R : Registry K M G) (m m' : M) (d : Deed K G) :
    (R.record m d).deed m' = if m' = m then some d else R.deed m' :=
  Function.update_apply ..

theorem roster_amend [DecidableEq K] (R : Registry K M G) (k k' : K) (f : Roster M G → Roster M G) :
    (R.amend k f).roster k' = if k' = k then (R.roster k).map f else R.roster k' :=
  Function.update_apply ..

theorem roster_found [DecidableEq K] (R : Registry K M G) (k k' : K) (g : G) :
    (R.found k g).roster k' = if k' = k then some ⟨[], g⟩ else R.roster k' :=
  Function.update_apply ..

/-! ### What survives every change -/

variable [LinearOrder M]

/-- Rosters are strictly sorted and list members of their holder, and all of these that are in
standing. -/
structure Listed (R : Registry K M G) : Prop where
  sorted : ∀ k c, R.roster k = some c → c.members.Pairwise (· < ·)
  own : ∀ k c m, R.roster k = some c → m ∈ c.members → ∃ d, R.deed m = some d ∧ d.holder = k
  held : ∀ m d, R.deed m = some d →
    ∃ c, R.roster d.holder = some c ∧ (d.standing = true → m ∈ c.members)

/-- A registry without members lists them all. -/
theorem listed_empty : (⟨fun _ => none, fun _ => none⟩ : Registry K M G).Listed :=
  ⟨by simp, by simp, by simp⟩

/-- A member that is not there is on no roster. -/
theorem Listed.not_mem {c : Roster M G} (h : R.Listed) (hm : R.deed m = none)
    (hk : R.roster k = some c) : m ∉ c.members := by
  intro hmem
  obtain ⟨d, hd, -⟩ := h.own k c m hk hmem
  rw [hm] at hd
  cases hd

/-- A new roster, which is empty, keeps members listed. -/
theorem Listed.found [DecidableEq K] (h : R.Listed) (hk : R.roster k = none) (g : G) :
    (R.found k g).Listed where
  sorted k' c hc := by
    rw [roster_found] at hc
    split at hc
    · cases hc
      exact List.Pairwise.nil
    · exact h.sorted k' c hc
  own k' c m hc hm := by
    rw [roster_found] at hc
    split at hc
    · cases hc
      cases hm
    · exact h.own k' c m hc hm
  held m d hd := by
    obtain ⟨c, hc, hm⟩ := h.held m d hd
    refine ⟨c, ?_, hm⟩
    rw [roster_found, if_neg, hc]
    rintro rfl
    rw [hk] at hc
    cases hc

/-- One member is settled: it has the deed `d`, no roster lists it but the one of its holder, and
the rosters list what they listed besides. -/
structure Settles (m : M) (d : Deed K G) (R R' : Registry K M G) : Prop where
  deed : R'.deed = (R.record m d).deed
  founded : ∀ k, (R'.roster k).isSome = (R.roster k).isSome
  roster : ∀ k c', R'.roster k = some c' → ∃ c, R.roster k = some c ∧
    c'.generation = c.generation ∧ c'.members.Pairwise (· < ·) ∧
    (m ∈ c'.members → k = d.holder) ∧ ∀ m', m' ≠ m → (m' ∈ c'.members ↔ m' ∈ c.members)
  held : ∃ c', R'.roster d.holder = some c' ∧ (d.standing = true → m ∈ c'.members)

variable {R' : Registry K M G} {d : Deed K G} {c : Roster M G} {g : G}

/-- The member has the deed it was settled with. -/
theorem Settles.deed_self (h : Settles m d R R') : R'.deed m = some d := by
  rw [h.deed, deed_record, if_pos rfl]

/-- The other members keep their deeds. -/
theorem Settles.deed_of_ne (h : Settles m d R R') {m' : M} (hm : m' ≠ m) :
    R'.deed m' = R.deed m' := by
  rw [h.deed, deed_record, if_neg hm]

/-- Settling a member keeps members listed. -/
theorem Listed.settles (h : R.Listed) (hs : Settles m d R R') : R'.Listed where
  sorted k c' hc' := by
    obtain ⟨_, -, -, hsorted, -⟩ := hs.roster k c' hc'
    exact hsorted
  own k c' m' hc' hm' := by
    obtain ⟨c, hc, -, -, hself, hother⟩ := hs.roster k c' hc'
    by_cases hm : m' = m
    · subst hm
      exact ⟨d, hs.deed_self, (hself hm').symm⟩
    · rw [hs.deed_of_ne hm]
      exact h.own k c m' hc ((hother m' hm).mp hm')
  held m' d' hd' := by
    by_cases hm : m' = m
    · subst hm
      obtain rfl := Option.some.inj (hs.deed_self.symm.trans hd')
      exact hs.held
    · rw [hs.deed_of_ne hm] at hd'
      obtain ⟨c, hc, hmem⟩ := h.held m' d' hd'
      have hfounded := hs.founded d'.holder
      rw [hc, Option.isSome_some] at hfounded
      obtain ⟨c', hc'⟩ := Option.isSome_iff_exists.mp hfounded
      obtain ⟨c0, hc0, -, -, -, hother⟩ := hs.roster _ c' hc'
      obtain rfl := Option.some.inj (hc.symm.trans hc0)
      exact ⟨c', hc', fun hd => (hother m' hm).mpr (hmem hd)⟩

/-- A new member is settled with its holder. -/
theorem Listed.enter [DecidableEq K] (h : R.Listed) (hm : R.deed m = none)
    (hk : R.roster k = some c) :
    Settles m ⟨k, g, true⟩ R (R.enter m k g) where
  deed := rfl
  founded k' := by
    change ((R.amend k _).roster k').isSome = _
    rw [roster_amend]
    split
    · rename_i hk'
      rw [Option.isSome_map, hk']
    · rfl
  roster k' c' hc' := by
    change (R.amend k _).roster k' = some c' at hc'
    rw [roster_amend] at hc'
    split at hc'
    · rename_i hk'
      rw [hk, Option.map_some, Option.some.injEq] at hc'
      subst hk' hc'
      have hnot := h.not_mem hm hk
      refine ⟨c, hk, rfl, Roster.sorted_enrol (h.sorted _ c hk) hnot, fun _ => rfl, fun m' hne =>
        ?_⟩
      rw [Roster.mem_enrol, or_iff_left hne]
    · refine ⟨c', hc', rfl, h.sorted k' c' hc', fun hmem => ?_, fun _ _ => .rfl⟩
      exact absurd hmem (h.not_mem hm hc')
  held := by
    refine ⟨c.enrol m, ?_, fun _ => Roster.mem_enrol.mpr (.inr rfl)⟩
    change (R.amend k _).roster k = _
    rw [roster_amend, if_pos rfl, hk, Option.map_some]

/-- A member that is struck off is settled without standing. -/
theorem Listed.cease [DecidableEq K] (h : R.Listed) (hd : R.deed m = some d) :
    Settles m { d with standing := false } R (R.cease m d) where
  deed := rfl
  founded k' := by
    change ((R.amend d.holder _).roster k').isSome = _
    rw [roster_amend]
    split
    · rename_i hk'
      rw [Option.isSome_map, hk']
    · rfl
  roster k' c' hc' := by
    change (R.amend d.holder _).roster k' = some c' at hc'
    rw [roster_amend] at hc'
    split at hc'
    · rename_i hk'
      obtain ⟨c, hc, rfl⟩ := Option.map_eq_some_iff.mp hc'
      subst hk'
      refine ⟨c, hc, rfl, Roster.sorted_strike (h.sorted _ c hc), fun _ => rfl, fun m' hne => ?_⟩
      rw [Roster.mem_strike, and_iff_left hne]
    · refine ⟨c', hc', rfl, h.sorted k' c' hc', fun hmem => ?_, fun _ _ => .rfl⟩
      obtain ⟨d', hd', hholder⟩ := h.own k' c' m hc' hmem
      obtain rfl := Option.some.inj (hd.symm.trans hd')
      exact hholder.symm
  held := by
    obtain ⟨c, hc, -⟩ := h.held m d hd
    refine ⟨c.strike m, ?_, by rintro ⟨⟩⟩
    change (R.amend d.holder _).roster d.holder = _
    rw [roster_amend, if_pos rfl, hc, Option.map_some]

/-- A member that is conveyed is settled with its new holder. -/
theorem Listed.convey [DecidableEq K] (h : R.Listed) (hd : R.deed m = some d)
    (hk : R.roster k = some c)
    (hne : k ≠ d.holder) : Settles m ⟨k, g, d.standing⟩ R (R.convey m d k g) := by
  have hroster : ∀ k', (R.convey m d k g).roster k' = if k' = k then some (c.enrol m) else
      if k' = d.holder then (R.roster d.holder).map (.strike m) else R.roster k' := by
    intro k'
    change ((R.amend d.holder _).amend k _).roster k' = _
    rw [roster_amend, roster_amend, roster_amend, if_neg hne, hk, Option.map_some]
  -- only its holder lists it
  have hlisted : ∀ k' c', R.roster k' = some c' → m ∈ c'.members → k' = d.holder := by
    intro k' c' hc' hmem
    obtain ⟨d', hd', hholder⟩ := h.own k' c' m hc' hmem
    obtain rfl := Option.some.inj (hd.symm.trans hd')
    exact hholder.symm
  have hnot : m ∉ c.members := fun hmem => hne (hlisted k c hk hmem)
  refine ⟨rfl, fun k' => ?_, fun k' c' hc' => ?_, c.enrol m, ?_, fun _ => ?_⟩
  · rw [hroster]
    split
    · rename_i hk'
      rw [hk', hk, Option.isSome_some, Option.isSome_some]
    · split
      · rename_i hk'
        rw [Option.isSome_map, hk']
      · rfl
  · rw [hroster] at hc'
    split at hc'
    · rename_i hk'
      cases hc'
      subst hk'
      refine ⟨c, hk, rfl, Roster.sorted_enrol (h.sorted _ c hk) hnot, fun _ => rfl, fun m' hm' =>
        ?_⟩
      rw [Roster.mem_enrol, or_iff_left hm']
    · split at hc'
      · rename_i hk'
        obtain ⟨c0, hc0, rfl⟩ := Option.map_eq_some_iff.mp hc'
        subst hk'
        refine ⟨c0, hc0, rfl, Roster.sorted_strike (h.sorted _ c0 hc0), fun hmem => ?_,
          fun m' hm' => ?_⟩
        · exact absurd rfl (Roster.mem_strike.mp hmem).2
        · rw [Roster.mem_strike, and_iff_left hm']
      · rename_i hk'
        refine ⟨c', hc', rfl, h.sorted k' c' hc', fun hmem => ?_, fun _ _ => .rfl⟩
        exact absurd (hlisted k' c' hc' hmem) hk'
  · rw [hroster, if_pos rfl]
  · exact Roster.mem_enrol.mpr (.inr rfl)

/-- The deeds after a roster was renewed for some members. -/
theorem deed_renew [DecidableEq K] (R : Registry K M G) (k : K) (members : List M) (g : G) (m : M) :
    (R.renew k members g).deed m =
      (R.deed m).map fun d => if m ∈ members then { d with generation := g } else d := rfl

/-- The rosters after one was renewed. -/
theorem roster_renew [DecidableEq K] (R : Registry K M G) (k k' : K) (members : List M) (g : G) :
    (R.renew k members g).roster k' =
      if k' = k then (R.roster k).map fun c => { c with generation := g } else R.roster k' :=
  roster_amend ..

/-- A new generation changes neither holders nor members. -/
theorem Listed.renew [DecidableEq K] (h : R.Listed) (k : K) (members : List M) (g : G) :
    (R.renew k members g).Listed := by
  have hroster : ∀ k' c', (R.renew k members g).roster k' = some c' →
      ∃ c, R.roster k' = some c ∧ c'.members = c.members := by
    intro k' c' hc'
    rw [roster_renew] at hc'
    split at hc'
    · rename_i hk'
      subst hk'
      obtain ⟨c, hc, rfl⟩ := Option.map_eq_some_iff.mp hc'
      exact ⟨c, hc, rfl⟩
    · exact ⟨c', hc', rfl⟩
  refine ⟨fun k' c' hc' => ?_, fun k' c' m hc' hm => ?_, fun m d' hd' => ?_⟩
  · obtain ⟨c, hc, hsame⟩ := hroster k' c' hc'
    rw [hsame]
    exact h.sorted k' c hc
  · obtain ⟨c, hc, hsame⟩ := hroster k' c' hc'
    obtain ⟨d, hd, hholder⟩ := h.own k' c m hc (hsame ▸ hm)
    rw [deed_renew, hd, Option.map_some]
    refine ⟨_, rfl, ?_⟩
    split <;> exact hholder
  · rw [deed_renew] at hd'
    obtain ⟨d, hd, rfl⟩ := Option.map_eq_some_iff.mp hd'
    obtain ⟨c, hc, hmem⟩ := h.held m d hd
    have hsame : (if m ∈ members then { d with generation := g } else d).holder = d.holder ∧
        (if m ∈ members then { d with generation := g } else d).standing = d.standing := by
      split <;> exact ⟨rfl, rfl⟩
    rw [hsame.1, hsame.2, roster_renew]
    split
    · rename_i hk'
      rw [← hk', hc, Option.map_some]
      exact ⟨_, rfl, hmem⟩
    · exact ⟨c, hc, hmem⟩

/-! ### The full correspondence -/

/-- Rosters list members in standing only, and deeds are of the generation of their holder. -/
structure Closed (R : Registry K M G) : Prop extends Listed R where
  standing : ∀ k c m d, R.roster k = some c → m ∈ c.members → R.deed m = some d →
    d.standing = true
  current : ∀ m d c, R.deed m = some d → R.roster d.holder = some c →
    d.generation = c.generation

/-- A registry without members is closed. -/
theorem closed_empty : (⟨fun _ => none, fun _ => none⟩ : Registry K M G).Closed :=
  ⟨listed_empty, by simp, by simp⟩

/-- What is on a roster. -/
theorem Closed.mem_iff (h : R.Closed) (hk : R.roster k = some c) :
    m ∈ c.members ↔ ∃ d, R.deed m = some d ∧ d.holder = k ∧ d.standing = true := by
  constructor
  · intro hm
    obtain ⟨d, hd, hholder⟩ := h.own k c m hk hm
    exact ⟨d, hd, hholder, h.standing k c m d hk hm hd⟩
  · rintro ⟨d, hd, rfl, hstanding⟩
    obtain ⟨c', hc', hm⟩ := h.held m d hd
    obtain rfl := Option.some.inj (hk.symm.trans hc')
    exact hm hstanding

/-- A new roster keeps the registry closed. -/
theorem Closed.found [DecidableEq K] (h : R.Closed) (hk : R.roster k = none) (g : G) :
    (R.found k g).Closed where
  toListed := h.toListed.found hk g
  standing k' c m d hc hm hd := by
    rw [roster_found] at hc
    split at hc
    · cases hc
      cases hm
    · exact h.standing k' c m d hc hm hd
  current m d c hd hc := by
    rw [roster_found] at hc
    split at hc
    · rename_i hk'
      obtain ⟨c', hc', -⟩ := h.held m d hd
      rw [hk', hk] at hc'
      cases hc'
    · exact h.current m d c hd hc

/-- A member that is settled keeps the correspondence if it is in standing where it is listed, and
its deed is of the generation of its holder. -/
theorem Closed.settles (h : R.Closed) (hs : Settles m d R R')
    (hstanding : ∀ k c', R'.roster k = some c' → m ∈ c'.members → d.standing = true)
    (hcurrent : ∀ c, R.roster d.holder = some c → d.generation = c.generation) : R'.Closed where
  toListed := h.toListed.settles hs
  standing k c' m' d' hc' hm' hd' := by
    by_cases hm : m' = m
    · subst hm
      obtain rfl := Option.some.inj (hs.deed_self.symm.trans hd')
      exact hstanding k c' hc' hm'
    · rw [hs.deed_of_ne hm] at hd'
      obtain ⟨c, hc, -, -, -, hother⟩ := hs.roster k c' hc'
      exact h.standing k c m' d' hc ((hother m' hm).mp hm') hd'
  current m' d' c' hd' hc' := by
    obtain ⟨c, hc, hg, -⟩ := hs.roster _ c' hc'
    rw [hg]
    by_cases hm : m' = m
    · subst hm
      obtain rfl := Option.some.inj (hs.deed_self.symm.trans hd')
      exact hcurrent c hc
    · rw [hs.deed_of_ne hm] at hd'
      exact h.current m' d' c hd' hc

/-- A new generation of a holder keeps the correspondence if it lists every member it holds. -/
theorem Closed.renew [DecidableEq K] (h : R.Closed) (hk : R.roster k = some c) (g : G)
    (hall : ∀ m d, R.deed m = some d → d.holder = k → d.standing = true) :
    (R.renew k c.members g).Closed where
  toListed := h.toListed.renew k c.members g
  standing k' c' m d' hc' hm hd' := by
    rw [deed_renew] at hd'
    obtain ⟨d, hd, rfl⟩ := Option.map_eq_some_iff.mp hd'
    have hstanding : d.standing = true := by
      rw [roster_renew] at hc'
      split at hc'
      · obtain ⟨c0, hc0, rfl⟩ := Option.map_eq_some_iff.mp hc'
        exact h.standing k c0 m d hc0 hm hd
      · exact h.standing k' c' m d hc' hm hd
    split <;> exact hstanding
  current m d' c' hd' hc' := by
    rw [deed_renew] at hd'
    obtain ⟨d, hd, rfl⟩ := Option.map_eq_some_iff.mp hd'
    have hholder : (if m ∈ c.members then { d with generation := g } else d).holder = d.holder := by
      split <;> rfl
    rw [hholder, roster_renew] at hc'
    split at hc'
    · rename_i hk'
      rw [hk, Option.map_some, Option.some.injEq] at hc'
      subst hc'
      have hm : m ∈ c.members := (h.mem_iff hk).mpr ⟨d, hd, hk', hall m d hd hk'⟩
      rw [if_pos hm]
    · rename_i hk'
      have hm : m ∉ c.members := by
        intro hm
        obtain ⟨d0, hd0, hd0'⟩ := h.own k c m hk hm
        obtain rfl := Option.some.inj (hd.symm.trans hd0)
        exact hk' hd0'
      rw [if_neg hm]
      exact h.current m d c' hd hc'

/-! ### Steps -/

variable [DecidableEq K]

/-- What may happen to a registry. A faithful step conveys only members in standing, and gives a
new generation only to a holder all of whose members are. -/
inductive Step (faithful : Prop) : Registry K M G → Registry K M G → Prop
  | found {R : Registry K M G} {k : K} (g : G) (hk : R.roster k = none) :
      Step faithful R (R.found k g)
  | enter {R : Registry K M G} {m : M} {k : K} {c : Roster M G} (hm : R.deed m = none)
      (hk : R.roster k = some c) : Step faithful R (R.enter m k c.generation)
  | cease {R : Registry K M G} {m : M} {d : Deed K G} (hd : R.deed m = some d) :
      Step faithful R (R.cease m d)
  | convey {R : Registry K M G} {m : M} {d : Deed K G} {k : K} {c : Roster M G}
      (hd : R.deed m = some d) (hk : R.roster k = some c) (hne : k ≠ d.holder)
      (hstanding : faithful → d.standing = true) : Step faithful R (R.convey m d k c.generation)
  | renew {R : Registry K M G} {k : K} {c : Roster M G} (g : G) (hk : R.roster k = some c)
      (hstanding : faithful → ∀ m d, R.deed m = some d → d.holder = k → d.standing = true) :
      Step faithful R (R.renew k c.members g)

variable {faithful : Prop}

/-- A step keeps members listed. -/
theorem Listed.step (h : R.Listed) (hs : Step faithful R R') : R'.Listed := by
  cases hs with
  | found g hk => exact h.found hk g
  | enter hm hk => exact h.settles (h.enter hm hk)
  | cease hd => exact h.settles (h.cease hd)
  | convey hd hk hne => exact h.settles (h.convey hd hk hne)
  | renew g => exact h.renew _ _ g

/-- A faithful step keeps the registry closed. -/
theorem Closed.step (hf : faithful) (h : R.Closed) (hs : Step faithful R R') : R'.Closed := by
  cases hs with
  | found g hk => exact h.found hk g
  | @enter m k c hm hk =>
    refine h.settles (h.enter hm hk) (fun _ _ _ _ => rfl) fun c' hc' => ?_
    obtain rfl := Option.some.inj (hk.symm.trans hc')
    rfl
  | @cease m d hd =>
    refine h.settles (h.cease hd) (fun k c' hc' hm => ?_) fun c hc => h.current m d c hd hc
    -- a member that ceases is struck off the only roster that listed it
    change (R.amend d.holder _).roster k = some c' at hc'
    rw [roster_amend] at hc'
    split at hc'
    · obtain ⟨c, -, rfl⟩ := Option.map_eq_some_iff.mp hc'
      exact absurd rfl (Roster.mem_strike.mp hm).2
    · rename_i hk
      obtain ⟨d', hd', hholder⟩ := h.own k c' m hc' hm
      obtain rfl := Option.some.inj (hd.symm.trans hd')
      exact absurd hholder.symm hk
  | @convey m d k c hd hk hne hstanding =>
    refine h.settles (h.convey hd hk hne) (fun _ _ _ _ => hstanding hf) fun c' hc' => ?_
    obtain rfl := Option.some.inj (hk.symm.trans hc')
    rfl
  | renew g hk hstanding => exact h.renew hk g (hstanding hf)

end Registry

end Rosters
