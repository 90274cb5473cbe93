import AcceleratorVirtualization.Coordinator.AgentLink
import AcceleratorVirtualization.Lib.Transition
import Mathlib.Data.List.Nodup

/-!
# Every request is answered once

A promise is in one place at a time: in the table, with the delivery or the `fail_all` that took it
out, or set. So it is set at most once, by the first response that was delivered since it was
entered, or by a `fail_all`; and a call that waits waits for a promise that somebody has. What the
order of the locks does not exclude is a request that saw the link alive and enters its promise
after a `fail_all` emptied the table: if its send succeeds, it waits for good.
-/

namespace AcceleratorVirtualization

variable {ρ : Type}

/-- Where the promise of an identity is. -/
inductive Place
  | absent
  | pending
  | delivering (d : ℕ)
  | failing (f : ℕ)
  | kept
  /-- The send failed, and the entry was erased. -/
  | dropped
  deriving DecidableEq

/-- A call whose promise was entered and that has not given it up. -/
def Call.Holds (n : ℕ) : Call ρ → Prop
  | .registered m | .waiting m | .failed m _ => m = n
  | _ => False

namespace AgentLink

variable {l l' : AgentLink ρ} {place : ℕ → Place} {failure : Status → ρ} {punctual : Prop}

/-! ### The invariant -/

/-- Every promise is in the place that is said. -/
structure Placed (l : AgentLink ρ) (place : ℕ → Place) : Prop where
  pending : ∀ n, n ∈ l.pending ↔ place n = .pending
  delivering : ∀ n d, place n = .delivering d ↔ ∃ r, l.deliveries d = .holding n r
  failing : ∀ n f, place n = .failing f ↔
    ∃ status rest, l.failings f = .setting status rest ∧ n ∈ rest
  kept : ∀ n, place n = .kept ↔ ∃ r, l.value n = some r
  absent : ∀ n, place n = .absent ↔ l.history.entered n = false
  nodup : l.pending.Nodup
  rest : ∀ f status rest, l.failings f = .setting status rest → rest.Nodup

/-- The first response that was delivered for an identity since it was entered, or what a
`fail_all` answers. -/
def Due (failure : Status → ρ) (l : AgentLink ρ) (n : ℕ) (r : ρ) : Prop :=
  (l.history.heard n).head? = some r ∨
    ∃ f status rest, l.failings f = .setting status rest ∧ r = failure status

/-- All that every step keeps; the last part is kept by the steps that are in time. -/
structure Ordered (punctual : Prop) (failure : Status → ρ) (l : AgentLink ρ) (place : ℕ → Place) :
    Prop extends Placed l place where
  issued : ∀ t n, (l.calls t).identity = some n → n < l.nextRequest
  distinct : ∀ t t' n, (l.calls t).identity = some n → (l.calls t').identity = some n → t = t'
  old : ∀ n, place n ≠ .absent → n < l.nextRequest
  fresh : ∀ t n, l.calls t = .identified n → place n = .absent
  held : ∀ t n, (l.calls t).Holds n → place n ≠ .absent ∧ place n ≠ .dropped
  once : l.broken = false
  unheard : ∀ n, place n = .absent ∨ place n = .pending → l.history.heard n = []
  holding : ∀ d n r, l.deliveries d = .holding n r → (l.history.heard n).head? = some r
  values : ∀ n r, l.value n = some r → Due failure l n r
  replies : ∀ t n r, l.calls t = .returned (some n) (.got r) → Due failure l n r
  emptied : ∀ f status rest, l.failings f = .setting status rest → l.history.emptied = true
  late : l.history.emptied = true → ∀ n, place n = .pending → l.history.late n = true
  timely : punctual → ∀ t n, l.calls t = .waiting n → l.history.late n = false

/-! ### Steps of a call -/

/-- A call moves on with the promise where it is. -/
theorem Ordered.setCall (h : Ordered punctual failure l place) {t : ℕ} {c : Call ρ}
    (hid : ∀ n, c.identity = some n → (l.calls t).identity = some n)
    (hfresh : ∀ n, c = .identified n → place n = .absent)
    (hheld : ∀ n, c.Holds n → place n ≠ .absent ∧ place n ≠ .dropped)
    (hreply : ∀ n r, c = .returned (some n) (.got r) → Due failure l n r)
    (htimely : punctual → ∀ n, c = .waiting n → l.history.late n = false) :
    Ordered punctual failure (l.setCall t c) place := by
  have hcalls : ∀ t' : ℕ, (l.setCall t c).calls t' = if t' = t then c else l.calls t' := by
    intro t'
    simp [AgentLink.setCall, Function.update_apply]
  have hidentity : ∀ t' n, ((l.setCall t c).calls t').identity = some n →
      (l.calls t').identity = some n := by
    intro t' n hn
    rw [hcalls] at hn
    split at hn
    · rename_i heq
      rw [heq]
      exact hid n hn
    · exact hn
  refine { h with
    issued := fun t' n hn => h.issued t' n (hidentity t' n hn)
    distinct := fun t' t'' n hn hn' => h.distinct t' t'' n (hidentity t' n hn) (hidentity t'' n hn')
    fresh := fun t' n hn => ?_
    held := fun t' n hn => ?_
    replies := fun t' n r hn => ?_
    timely := fun hp t' n hn => ?_ }
  all_goals
    rw [hcalls] at hn
    split at hn
  · exact hfresh n hn
  · exact h.fresh t' n hn
  · exact hheld n hn
  · exact h.held t' n hn
  · exact hreply n r hn
  · exact h.replies t' n r hn
  · exact htimely hp n hn
  · exact h.timely hp t' n hn

/-- A call fetches an identity that no call has. -/
theorem Ordered.fetch (h : Ordered punctual failure l place) (t : ℕ) :
    Ordered punctual failure ({ l with nextRequest := l.nextRequest + 1 }.setCall t
      (.identified l.nextRequest)) place := by
  have hcalls : ∀ t' : ℕ, (({ l with nextRequest := l.nextRequest + 1 } : AgentLink ρ).setCall t
      (.identified l.nextRequest)).calls t' =
        if t' = t then .identified l.nextRequest else l.calls t' := by
    intro t'
    simp [AgentLink.setCall, Function.update_apply]
  have habsent : place l.nextRequest = .absent := by
    by_contra hne
    exact absurd (h.old _ hne) (lt_irrefl _)
  refine { h with
    issued := fun t' n hn => ?_
    distinct := fun t' t'' n hn hn' => ?_
    old := fun n hn => (h.old n hn).trans (Nat.lt_succ_self _)
    fresh := fun t' n hn => ?_
    held := fun t' n hn => ?_
    replies := fun t' n r hn => ?_
    timely := fun hp t' n hn => ?_ }
  · rw [hcalls] at hn
    split at hn
    · cases hn
      exact Nat.lt_succ_self _
    · exact (h.issued t' n hn).trans (Nat.lt_succ_self _)
  · rw [hcalls] at hn hn'
    -- the new identity is not below the counter
    have hno : ∀ u, (l.calls u).identity ≠ some l.nextRequest := fun u hu =>
      absurd (h.issued u _ hu) (lt_irrefl _)
    split at hn <;> split at hn'
    · rename_i h1 h2
      rw [h1, h2]
    · cases hn
      exact absurd hn' (hno t'')
    · cases hn'
      exact absurd hn (hno t')
    · exact h.distinct t' t'' n hn hn'
  all_goals
    rw [hcalls] at hn
    split at hn
  · cases hn
    exact habsent
  · exact h.fresh t' n hn
  · exact hn.elim
  · exact h.held t' n hn
  · cases hn
  · exact h.replies t' n r hn
  · cases hn
  · exact h.timely hp t' n hn

/-! ### Steps of a promise -/

/-- A promise that moves between two other places. -/
theorem update_place_iff {n m : ℕ} {p q : Place} (hq : q ≠ p) (hn : place n ≠ p) :
    Function.update place n q m = p ↔ place m = p := by
  rw [Function.update_apply]
  split
  · rename_i hm
    rw [hm]
    exact iff_of_false hq hn
  · rfl

/-- A promise is entered that was nowhere. -/
theorem Ordered.insert (h : Ordered punctual failure l place) {n : ℕ} (hn : place n = .absent)
    (hlt : n < l.nextRequest) (hcalls : ∀ t, l.calls t ≠ .identified n) :
    Ordered punctual failure (l.insert n) (Function.update place n .pending) := by
  -- only `n` changes its place, and it was nowhere before
  have hplace : ∀ m p, Place.pending ≠ p → Place.absent ≠ p →
      (Function.update place n Place.pending m = p ↔ place m = p) := fun m p hp hp' =>
    update_place_iff hp (hn ▸ hp')
  refine { h with
    pending := fun m => ?_
    delivering := fun m d => (hplace m (.delivering d) nofun nofun).trans (h.delivering m d)
    failing := fun m f => (hplace m (.failing f) nofun nofun).trans (h.failing m f)
    kept := fun m => (hplace m .kept nofun nofun).trans (h.kept m)
    absent := fun m => ?_
    nodup := List.Nodup.insert h.nodup
    old := fun m hm => ?_
    fresh := fun t m hm => ?_
    held := fun t m hm => ?_
    unheard := fun m hm => ?_
    late := fun he m hm => ?_
    timely := fun hp t m hm => ?_ }
  · change m ∈ l.pending.insert n ↔ _
    rw [List.mem_insert_iff, Function.update_apply, h.pending m]
    split <;> simp_all
  · change _ ↔ Function.update l.history.entered n true m = false
    rw [Function.update_apply, Function.update_apply]
    split
    · simp
    · exact h.absent m
  · rw [Function.update_apply] at hm
    split at hm
    · rename_i heq
      rw [heq]
      exact hlt
    · exact h.old m hm
  · rw [Function.update_of_ne, h.fresh t m hm]
    rintro rfl
    exact hcalls t hm
  · have hp := h.held t m hm
    rw [Function.update_of_ne]
    · exact hp
    · rintro rfl
      exact hp.1 hn
  · rw [Function.update_apply] at hm
    split at hm
    · rename_i heq
      rw [heq]
      exact h.unheard n (.inl hn)
    · exact h.unheard m hm
  · change Function.update l.history.late n l.history.emptied m = true
    rw [Function.update_apply] at hm ⊢
    split
    · exact he
    · rename_i hne
      rw [if_neg hne] at hm
      exact h.late he m hm
  · change Function.update l.history.late n l.history.emptied m = false
    have hm' : l.calls t = .waiting m := hm
    rw [Function.update_of_ne]
    · exact h.timely hp t m hm
    · rintro rfl
      exact (h.held t m (by rw [hm']; rfl)).1 hn

/-- What is pending after one request was taken off. -/
theorem mem_remove {n m : ℕ} : m ∈ (l.remove n).pending ↔ m ∈ l.pending ∧ m ≠ n := by
  simp [AgentLink.remove, List.mem_filter]

/-- An entry is erased, if it is still there. -/
theorem Ordered.remove (h : Ordered punctual failure l place) {n : ℕ}
    (hcalls : ∀ t, ¬ (l.calls t).Holds n) :
    ∃ place', Ordered punctual failure (l.remove n) place' := by
  by_cases hn : place n = .pending
  · have hplace : ∀ m p, Place.dropped ≠ p → Place.pending ≠ p →
        (Function.update place n Place.dropped m = p ↔ place m = p) := fun m p hp hp' =>
      update_place_iff hp (hn ▸ hp')
    refine ⟨Function.update place n .dropped, { h with
      pending := fun m => ?_
      delivering := fun m d => (hplace m (.delivering d) nofun nofun).trans (h.delivering m d)
      failing := fun m f => (hplace m (.failing f) nofun nofun).trans (h.failing m f)
      kept := fun m => (hplace m .kept nofun nofun).trans (h.kept m)
      absent := fun m => (hplace m .absent nofun nofun).trans (h.absent m)
      nodup := h.nodup.filter _
      old := fun m hm => h.old m fun ha => hm ((hplace m .absent nofun nofun).mpr ha)
      fresh := fun t m hm => (hplace m .absent nofun nofun).mpr (h.fresh t m hm)
      held := fun t m hm => ?_
      unheard := fun m hm => h.unheard m ?_
      late := fun he m hm => h.late he m ?_ }⟩
    · rw [mem_remove, h.pending m, Function.update_apply]
      split <;> simp_all
    · rw [Function.update_of_ne]
      · exact h.held t m hm
      · rintro rfl
        exact hcalls t hm
    · rw [Function.update_apply] at hm
      split at hm
      · simp at hm
      · exact hm
    · rw [Function.update_apply] at hm
      split at hm
      · cases hm
      · exact hm
  · refine ⟨place, { h with
      pending := fun m => ?_
      nodup := h.nodup.filter _ }⟩
    rw [mem_remove, h.pending m, and_iff_left_iff_imp]
    rintro hm rfl
    exact hn hm

/-- What is delivered later does not come first. -/
theorem head?_hear {n m : ℕ} {r r' : ρ} (h : (l.history.heard m).head? = some r) :
    ((l.hear n r').history.heard m).head? = some r := by
  unfold hear
  dsimp only
  split
  · rw [Function.update_apply]
    split
    · rename_i hm
      subst hm
      rw [List.head?_append, h, Option.some_or]
    · exact h
  · exact h

/-- What is due stays due when a response is heard. -/
theorem Due.hear {n m : ℕ} {r r' : ρ} (h : Due failure l m r) : Due failure (l.hear n r') m r :=
  h.imp_left head?_hear

/-- A response that comes for nothing in the table. -/
theorem Ordered.hear (h : Ordered punctual failure l place) {n : ℕ} (hn : n ∉ l.pending) (r : ρ) :
    Ordered punctual failure (l.hear n r) place := by
  refine { h with
    unheard := fun m hm => ?_
    holding := fun d m r' hd => head?_hear (h.holding d m r' hd)
    values := fun m r' hv => (h.values m r' hv).hear
    replies := fun t m r' hc => (h.replies t m r' hc).hear }
  change (if l.history.entered n then
    Function.update l.history.heard n (l.history.heard n ++ [r]) else l.history.heard) m = []
  split
  · rename_i hentered
    rw [Function.update_of_ne]
    · exact h.unheard m hm
    · rintro rfl
      obtain hm | hm := hm
      · exact absurd ((h.absent m).mp hm) (by simp [hentered])
      · exact hn ((h.pending m).mpr hm)
  · exact h.unheard m hm

/-- A call of `deliver` is over. -/
theorem Ordered.finished (h : Ordered punctual failure l place) {d : ℕ}
    (hd : l.deliveries d = .idle) :
    Ordered punctual failure
      { l with deliveries := Function.update l.deliveries d .finished } place := by
  have hdeliveries : ∀ d' m r, Function.update l.deliveries d .finished d' = .holding m r ↔
      l.deliveries d' = .holding m r := by
    intro d' m r
    rw [Function.update_apply]
    split
    · rename_i heq
      rw [heq, hd]
      exact iff_of_false nofun nofun
    · rfl
  exact { h with
    delivering := fun m d' =>
      (h.delivering m d').trans (exists_congr fun r => (hdeliveries d' m r).symm)
    holding := fun d' m r hd' => h.holding d' m r ((hdeliveries d' m r).mp hd') }

/-- A delivery takes the promise out of the table. -/
theorem Ordered.hold (h : Ordered punctual failure l place) {d n : ℕ} (hd : l.deliveries d = .idle)
    (hn : n ∈ l.pending) (r : ρ) :
    Ordered punctual failure { (l.hear n r).remove n with
      deliveries := Function.update l.deliveries d (.holding n r) }
      (Function.update place n (.delivering d)) := by
  have hpending := (h.pending n).mp hn
  have hentered : l.history.entered n = true := by
    by_contra hno
    rw [(h.absent n).mpr (by simpa using hno)] at hpending
    cases hpending
  -- a request that is waited for has not been heard before
  have hheard : (l.hear n r).history.heard n = [r] := by
    simp [AgentLink.hear, hentered, h.unheard n (.inr hpending)]
  have hother : ∀ m, m ≠ n → (l.hear n r).history.heard m = l.history.heard m := by
    intro m hm
    simp [AgentLink.hear, hentered, Function.update_of_ne hm]
  -- only `n` changes its place, from pending to being delivered
  have hplace : ∀ m p, Place.delivering d ≠ p → Place.pending ≠ p →
      (Function.update place n (.delivering d) m = p ↔ place m = p) := fun m p hp hp' =>
    update_place_iff hp (hpending ▸ hp')
  have hnot : ∀ m r', l.deliveries d ≠ .holding m r' := fun m r' => by
    rw [hd]
    nofun
  refine { h with
    pending := fun m => ?_
    delivering := fun m d' => ?_
    failing := fun m f => (hplace m (.failing f) nofun nofun).trans (h.failing m f)
    kept := fun m => (hplace m .kept nofun nofun).trans (h.kept m)
    absent := fun m => (hplace m .absent nofun nofun).trans (h.absent m)
    nodup := h.nodup.filter _
    old := fun m hm => h.old m fun ha => hm ((hplace m .absent nofun nofun).mpr ha)
    fresh := fun t m hm => (hplace m .absent nofun nofun).mpr (h.fresh t m hm)
    held := fun t m hm => ?_
    unheard := fun m hm => ?_
    holding := fun d' m r' hd' => ?_
    values := fun m r' hv => (h.values m r' hv).hear
    replies := fun t m r' hc => (h.replies t m r' hc).hear
    late := fun he m hm => h.late he m ?_ }
  · change m ∈ (l.remove n).pending ↔ _
    rw [mem_remove, h.pending m, Function.update_apply]
    split <;> simp_all
  · change _ ↔ ∃ r', Function.update l.deliveries d (.holding n r) d' = .holding m r'
    rw [Function.update_apply, Function.update_apply]
    by_cases hm : m = n <;> by_cases hd' : d' = d
    · simp [hm, hd']
    · subst hm
      rw [if_pos rfl, if_neg hd', ← h.delivering m d', hpending]
      exact iff_of_false (fun heq => hd' (Place.delivering.inj heq).symm) nofun
    · subst hd'
      rw [if_neg hm, if_pos rfl, h.delivering m d']
      refine iff_of_false (fun ⟨r', hr'⟩ => hnot m r' hr') (fun ⟨r', hr'⟩ => ?_)
      cases hr'
      exact hm rfl
    · rw [if_neg hm, if_neg hd']
      exact h.delivering m d'
  · rw [Function.update_apply]
    split
    · exact ⟨nofun, nofun⟩
    · exact h.held t m hm
  · rw [Function.update_apply] at hm
    split at hm
    · simp at hm
    · rename_i hne
      exact (hother m hne).trans (h.unheard m hm)
  · change Function.update l.deliveries d (.holding n r) d' = .holding m r' at hd'
    change ((l.hear n r).history.heard m).head? = some r'
    rw [Function.update_apply] at hd'
    split at hd'
    · cases hd'
      rw [hheard]
      rfl
    · exact head?_hear (h.holding d' m r' hd')
  · rw [Function.update_apply] at hm
    split at hm
    · cases hm
    · exact hm

/-- A promise that has no value is set. -/
theorem setValue_eq (h : Placed l place) {n : ℕ} (hn : place n ≠ .kept) (r : ρ) :
    l.setValue n r = { l with value := Function.update l.value n (some r) } := by
  unfold setValue
  cases hv : l.value n with
  | none => rfl
  | some r' => exact absurd ((h.kept n).mpr ⟨r', hv⟩) hn

/-- A promise that somebody took out of the table is set. -/
theorem Ordered.keep (h : Ordered punctual failure l place) {n : ℕ} {r : ρ}
    {deliveries : ℕ → Delivery ρ}
    {failings : ℕ → Failing} (hn : place n ≠ .absent ∧ place n ≠ .pending)
    (hdeliveries : ∀ m d, (Function.update place n .kept m = .delivering d ↔
      ∃ r', deliveries d = .holding m r') ∧ ∀ r', deliveries d = .holding m r' →
        l.deliveries d = .holding m r')
    (hfailings : ∀ m f, Function.update place n .kept m = .failing f ↔
      ∃ status rest, failings f = .setting status rest ∧ m ∈ rest)
    (hsame : ∀ f status rest, l.failings f = .setting status rest →
      ∃ rest', failings f = .setting status rest')
    (hback : ∀ f status rest, failings f = .setting status rest →
      rest.Nodup ∧ ∃ rest', l.failings f = .setting status rest')
    (hdue : Due failure l n r) :
    Ordered punctual failure { l with
      value := Function.update l.value n (some r), deliveries := deliveries, failings := failings }
      (Function.update place n .kept) := by
  have hplace : ∀ m p, Place.kept ≠ p → place n ≠ p →
      (Function.update place n .kept m = p ↔ place m = p) := fun m p hp hp' =>
    update_place_iff hp hp'
  -- the list of a failing caller may shrink, but its status stays
  have hdue' : ∀ m r', Due failure l m r' → Due failure { l with
      value := Function.update l.value n (some r), deliveries := deliveries
      failings := failings } m r' := by
    rintro m r' (hr | ⟨f, status, rest, hf, hr⟩)
    · exact .inl hr
    · obtain ⟨rest', hf'⟩ := hsame f status rest hf
      exact .inr ⟨f, status, rest', hf', hr⟩
  refine { h with
    pending := fun m => (h.pending m).trans (hplace m .pending nofun hn.2).symm
    delivering := fun m d => (hdeliveries m d).1
    failing := hfailings
    kept := fun m => ?_
    absent := fun m => (hplace m .absent nofun hn.1).trans (h.absent m)
    rest := fun f status rest hf => (hback f status rest hf).1
    old := fun m hm => h.old m fun ha => hm ((hplace m .absent nofun hn.1).mpr ha)
    fresh := fun t m hm => (hplace m .absent nofun hn.1).mpr (h.fresh t m hm)
    held := fun t m hm => ?_
    unheard := fun m hm => h.unheard m ?_
    holding := fun d m r' hd => h.holding d m r' ((hdeliveries m d).2 r' hd)
    values := fun m r' hv => ?_
    replies := fun t m r' hc => hdue' m r' (h.replies t m r' hc)
    emptied := fun f status rest hf => ?_
    late := fun he m hm => h.late he m ((hplace m .pending nofun hn.2).mp hm) }
  · change _ ↔ ∃ r', Function.update l.value n (some r) m = some r'
    rw [Function.update_apply, Function.update_apply]
    split
    · simp
    · exact h.kept m
  · rw [Function.update_apply]
    split
    · exact ⟨nofun, nofun⟩
    · exact h.held t m hm
  · exact hm.imp (hplace m .absent nofun hn.1).mp (hplace m .pending nofun hn.2).mp
  · change Function.update l.value n (some r) m = some r' at hv
    rw [Function.update_apply] at hv
    split at hv
    · rename_i hm
      rw [Option.some.injEq] at hv
      rw [hm, ← hv]
      exact hdue' n r hdue
    · exact hdue' m r' (h.values m r' hv)
  · obtain ⟨rest', hf'⟩ := (hback f status rest hf).2
    exact h.emptied f status rest' hf'

/-- A delivery sets the promise it holds. -/
theorem Ordered.setDelivered (h : Ordered punctual failure l place) {d n : ℕ} {r : ρ}
    (hd : l.deliveries d = .holding n r) :
    Ordered punctual failure
      { l.setValue n r with deliveries := Function.update l.deliveries d .finished }
      (Function.update place n .kept) := by
  have hplace : place n = .delivering d := (h.delivering n d).mpr ⟨r, hd⟩
  rw [setValue_eq h.toPlaced (by rw [hplace]; nofun)]
  refine h.keep ⟨by rw [hplace]; nofun, by rw [hplace]; nofun⟩ (fun m d' => ⟨?_, fun r' hd' => ?_⟩)
    (fun m f => ?_) (fun f status rest hf => ⟨rest, hf⟩)
    (fun f status rest hf => ⟨h.rest f status rest hf, rest, hf⟩) (.inl (h.holding d n r hd))
  · rw [Function.update_apply, Function.update_apply]
    by_cases hd' : d' = d
    · rw [if_pos hd']
      refine iff_of_false (fun heq => ?_) (fun ⟨r', hr'⟩ => nomatch hr')
      split at heq
      · cases heq
      · rename_i hm
        obtain ⟨r', hr'⟩ := (h.delivering m d').mp heq
        rw [hd', hd] at hr'
        cases hr'
        exact hm rfl
    · rw [if_neg hd', ← h.delivering m d']
      split
      · rename_i hm
        rw [hm, hplace]
        exact iff_of_false nofun (fun heq => hd' (Place.delivering.inj heq).symm)
      · rfl
  · rw [Function.update_apply] at hd'
    split at hd'
    · cases hd'
    · exact hd'
  · refine Iff.trans (update_place_iff ?_ ?_) (h.failing m f)
    · nofun
    · rw [hplace]
      nofun

/-- A `fail_all` sets the next promise it found. -/
theorem Ordered.setFailed (h : Ordered punctual failure l place) {f n : ℕ} {status : Status}
    {rest : List ℕ}
    (hf : l.failings f = .setting status (n :: rest)) :
    Ordered punctual failure { l.setValue n (failure status) with
      failings := Function.update l.failings f (.setting status rest) }
      (Function.update place n .kept) := by
  -- `n` is the next request that the failing caller `f` has to settle
  have hplace : place n = .failing f := (h.failing n f).mpr ⟨status, _, hf, List.mem_cons_self⟩
  have hnodup := List.nodup_cons.mp (h.rest f status _ hf)
  rw [setValue_eq h.toPlaced (by rw [hplace]; nofun)]
  refine h.keep ⟨by rw [hplace]; nofun, by rw [hplace]; nofun⟩ (fun m d => ⟨?_, fun r' hd => hd⟩)
    (fun m f' => ?_) (fun f' status' rest' hf' => ?_) (fun f' status' rest' hf' => ?_)
    (.inr ⟨f, status, _, hf, rfl⟩)
  · refine Iff.trans (update_place_iff ?_ ?_) (h.delivering m d)
    · nofun
    · rw [hplace]
      nofun
  · rw [Function.update_apply, Function.update_apply]
    by_cases hf' : f' = f
    · rw [if_pos hf', hf']
      simp only [Failing.setting.injEq]
      split
      · rename_i hm
        rw [hm]
        refine iff_of_false nofun ?_
        rintro ⟨status', rest', ⟨rfl, rfl⟩, hmem⟩
        exact hnodup.1 hmem
      · rename_i hm
        rw [h.failing m f, hf]
        simp [hm]
    · rw [if_neg hf', ← h.failing m f']
      split
      · rename_i hm
        rw [hm, hplace]
        exact iff_of_false nofun (fun heq => hf' (Place.failing.inj heq).symm)
      · rfl
  · rw [Function.update_apply]
    split
    · rename_i heq
      rw [heq, hf] at hf'
      cases hf'
      exact ⟨rest, rfl⟩
    · exact ⟨rest', hf'⟩
  · rw [Function.update_apply] at hf'
    split at hf'
    · rename_i heq
      cases hf'
      rw [heq]
      exact ⟨hnodup.2, _, hf⟩
    · exact ⟨h.rest f' status' rest' hf', rest', hf'⟩

/-- A call of `fail_all` marks the link. -/
theorem Ordered.marked (h : Ordered punctual failure l place) {f : ℕ} (hf : l.failings f = .idle)
    (status : Status) : Ordered punctual failure { l with
      alive := false, failings := Function.update l.failings f (.marked status) } place := by
  have hfailings : ∀ f' status' rest, Function.update l.failings f (.marked status) f' =
      .setting status' rest ↔ l.failings f' = .setting status' rest := by
    intro f' status' rest
    rw [Function.update_apply]
    split
    · rename_i heq
      rw [heq, hf]
      exact iff_of_false nofun nofun
    · rfl
  have hdue : ∀ m r, Due failure l m r → Due failure { l with
      alive := false, failings := Function.update l.failings f (.marked status) } m r :=
    fun m r => Or.imp_right fun ⟨f', status', rest, hf', hr⟩ =>
      ⟨f', status', rest, (hfailings f' status' rest).mpr hf', hr⟩
  exact { h with
    failing := fun m f' =>
      (h.failing m f').trans (exists_congr fun status' => exists_congr fun rest =>
      and_congr_left fun _ => (hfailings f' status' rest).symm)
    rest := fun f' status' rest hf' => h.rest f' status' rest ((hfailings f' status' rest).mp hf')
    values := fun m r hv => hdue m r (h.values m r hv)
    replies := fun t m r hc => hdue m r (h.replies t m r hc)
    emptied := fun f' status' rest hf' =>
      h.emptied f' status' rest ((hfailings f' status' rest).mp hf') }

/-- A `fail_all` takes everything that is in the table. -/
theorem Ordered.take (h : Ordered punctual failure l place) {f : ℕ} {status : Status}
    (hf : l.failings f = .marked status) : Ordered punctual failure { l with
      pending := []
      failings := Function.update l.failings f (.setting status l.pending)
      history.emptied := true }
      (fun n => if place n = .pending then .failing f else place n) := by
  have hfailing : ∀ f' m, (∃ status' rest, l.failings f' = .setting status' rest ∧ m ∈ rest) →
      f' ≠ f := by
    rintro f' m ⟨status', rest, hf', -⟩ rfl
    rw [hf] at hf'
    cases hf'
  -- only what was pending changes its place
  have hplace : ∀ m p, p ≠ .pending → (∀ f', p ≠ .failing f') →
      ((if place m = .pending then .failing f else place m) = p ↔ place m = p) := by
    intro m p hp hp'
    split
    · rename_i hm
      rw [hm]
      exact iff_of_false (fun heq => hp' f heq.symm) (fun heq => hp heq.symm)
    · rfl
  -- the caller that fails had no list yet, so no due status is lost
  have hdue : ∀ m r, Due failure l m r → Due failure { l with
      pending := []
      failings := Function.update l.failings f (.setting status l.pending)
      history.emptied := true } m r := by
    rintro m r (hr | ⟨f', status', rest, hf', hr⟩)
    · exact .inl hr
    · refine .inr ⟨f', status', rest, ?_, hr⟩
      change Function.update _ _ _ _ = _
      rw [Function.update_of_ne, hf']
      rintro rfl
      rw [hf] at hf'
      cases hf'
  have hnot : ∀ m : ℕ, (if place m = .pending then Place.failing f else place m) ≠ .pending := by
    intro m
    split
    · nofun
    · assumption
  refine { h with
    pending := fun m => iff_of_false nofun (hnot m)
    delivering := fun m d => (hplace m (.delivering d) nofun nofun).trans (h.delivering m d)
    failing := fun m f' => ?_
    kept := fun m => (hplace m .kept nofun nofun).trans (h.kept m)
    absent := fun m => (hplace m .absent nofun nofun).trans (h.absent m)
    nodup := List.nodup_nil
    rest := fun f' status' rest hf' => ?_
    old := fun m hm => h.old m fun ha => hm ((hplace m .absent nofun nofun).mpr ha)
    fresh := fun t m hm => (hplace m .absent nofun nofun).mpr (h.fresh t m hm)
    held := fun t m hm => ?_
    unheard := fun m hm => h.unheard m (.inl ?_)
    values := fun m r hv => hdue m r (h.values m r hv)
    replies := fun t m r hc => hdue m r (h.replies t m r hc)
    emptied := fun _ _ _ _ => rfl
    late := fun _ m hm => absurd hm (hnot m) }
  · change _ ↔ ∃ status' rest, Function.update l.failings f (.setting status l.pending) f' =
      .setting status' rest ∧ m ∈ rest
    by_cases hf' : f' = f
    · rw [hf', Function.update_self]
      simp only [Failing.setting.injEq]
      split
      · rename_i hm
        exact iff_of_true rfl ⟨status, l.pending, ⟨rfl, rfl⟩, (h.pending m).mpr hm⟩
      · rename_i hm
        refine iff_of_false (fun heq => hfailing f m ((h.failing m f).mp heq) rfl) ?_
        rintro ⟨status', rest, ⟨rfl, rfl⟩, hmem⟩
        exact hm ((h.pending m).mp hmem)
    · rw [Function.update_of_ne hf', ← h.failing m f']
      split
      · rename_i hm
        rw [hm]
        exact iff_of_false (fun heq => hf' (Place.failing.inj heq).symm) nofun
      · rfl
  · change Function.update l.failings f (.setting status l.pending) f' = _ at hf'
    rw [Function.update_apply] at hf'
    split at hf'
    · cases hf'
      exact h.nodup
    · exact h.rest f' status' rest hf'
  · split
    · exact ⟨nofun, nofun⟩
    · exact h.held t m hm
  · exact hm.elim (hplace m .absent nofun nofun).mp fun hm => absurd hm (hnot m)

/-! ### Every step -/

/-- No send succeeds for a promise that was entered after a `fail_all` emptied the table. -/
def timely (l : AgentLink ρ) : LinkStep ρ → Bool
  | .send t (.ok ()) =>
    match l.calls t with
    | .registered n => !l.history.late n
    | _ => true
  | _ => true

/-- A link that has just been made is in order. -/
theorem ordered_empty : Ordered punctual failure ({} : AgentLink ρ) fun _ => .absent where
  pending := by simp
  delivering := by simp
  failing := by simp
  kept := by simp
  absent := by simp
  nodup := List.nodup_nil
  rest := by simp
  issued := by simp [Call.identity]
  distinct := by simp [Call.identity]
  old := by simp
  fresh := by simp
  held := by simp [Call.Holds]
  once := rfl
  unheard := by simp
  holding := by simp
  values := by simp
  replies := by simp
  emptied := by simp
  late := by simp
  timely := by simp

/-- The steps of the calling threads keep the link in order. -/
theorem Ordered.stepCall (h : Ordered punctual failure l place) {t : ℕ} {a : LinkStep ρ}
    (ht : punctual → ∀ t' n, l.calls t = .registered n → a = .send t' (.ok ()) →
      l.history.late n = false)
    (hs : l.stepCall t a (l.calls t) = some l') : ∃ place', Ordered punctual failure l' place' := by
  cases hc : l.calls t with
  | idle =>
    cases a <;> simp only [hc, AgentLink.stepCall, reduceCtorEq, Option.some.injEq] at hs
    subst hs
    refine ⟨place, h.setCall ?_ ?_ ?_ ?_ ?_⟩ <;> split <;> simp [Call.identity, Call.Holds]
  | checked =>
    cases a <;> simp only [hc, AgentLink.stepCall, reduceCtorEq, Option.some.injEq] at hs
    subst hs
    exact ⟨place, h.fetch t⟩
  | identified n =>
    cases a <;> simp only [hc, AgentLink.stepCall, reduceCtorEq, Option.some.injEq] at hs
    subst hs
    have hid : (l.calls t).identity = some n := by
      rw [hc]
      rfl
    -- the promise is entered while the call is in a state that asks for nothing
    have hneutral : Ordered punctual failure (l.setCall t (.erased n {})) place :=
      h.setCall (fun m hm => hid.trans hm) nofun nofun nofun nofun
    have hinsert := hneutral.insert (h.fresh t n hc) (h.issued t n hid) fun t' ht' => by
      simp only [AgentLink.setCall, Function.update_apply] at ht'
      split at ht'
      · cases ht'
      · rename_i hne
        exact hne (h.distinct t' t n (by rw [ht']; rfl) hid)
    refine ⟨Function.update place n .pending, ?_⟩
    have hcall := hinsert.setCall (t := t) (c := .registered n) ?_ nofun ?_ nofun nofun
    · simpa [AgentLink.setCall, AgentLink.insert, Function.update_idem] using hcall
    · intro m hm
      simpa [AgentLink.setCall, AgentLink.insert, Call.identity] using hm
    · rintro m rfl
      rw [Function.update_self]
      exact ⟨nofun, nofun⟩
  | registered n =>
    have hheld := h.held t n (by rw [hc]; rfl)
    cases a <;> simp only [hc, AgentLink.stepCall, reduceCtorEq] at hs
    rename_i sent
    cases sent with
    | error status =>
      simp only [Option.some.injEq] at hs
      subst hs
      refine ⟨place, h.setCall (fun m hm => ?_) nofun ?_ nofun nofun⟩
      · rw [hc]
        exact hm
      · rintro m rfl
        exact hheld
    | ok u =>
      simp only [Option.some.injEq] at hs
      subst hs
      refine ⟨place, h.setCall (fun m hm => ?_) nofun ?_ nofun ?_⟩
      · rw [hc]
        exact hm
      · rintro m rfl
        exact hheld
      · rintro hp m ⟨⟩
        exact ht hp _ n hc rfl
  | waiting n =>
    cases a <;> simp only [hc, AgentLink.stepCall, reduceCtorEq] at hs
    obtain ⟨r, hr, rfl⟩ := Option.map_eq_some_iff.mp hs
    refine ⟨place, h.setCall (fun m hm => ?_) nofun nofun ?_ nofun⟩
    · rw [hc]
      exact hm
    · rintro m r' ⟨⟩
      exact h.values n r hr
  | failed n status =>
    cases a <;> simp only [hc, AgentLink.stepCall, reduceCtorEq, Option.some.injEq] at hs
    subst hs
    have hid : (l.calls t).identity = some n := by
      rw [hc]
      rfl
    have hcall : Ordered punctual failure (l.setCall t (.erased n status)) place :=
      h.setCall (fun m hm => hid.trans hm) nofun nofun nofun nofun
    refine hcall.remove fun t' ht' => ?_
    simp only [AgentLink.setCall, Function.update_apply] at ht'
    split at ht'
    · exact ht'
    · rename_i hne
      refine hne (h.distinct t' t n ?_ hid)
      revert ht'
      cases l.calls t' <;> simp [Call.Holds, Call.identity]
  | erased n status =>
    cases a <;> simp only [hc, AgentLink.stepCall, reduceCtorEq, Option.some.injEq] at hs
    subst hs
    have halive : Ordered punctual failure { l with alive := false } place := { h with }
    refine ⟨place, halive.setCall (fun m hm => ?_) nofun nofun nofun nofun⟩
    change (l.calls t).identity = some m
    rw [hc]
    exact hm
  | returned n reply =>
    cases a <;> simp [hc, AgentLink.stepCall] at hs

/-- The steps of a delivery keep the link in order. -/
theorem Ordered.stepDelivery (h : Ordered punctual failure l place) {d : ℕ} {a : LinkStep ρ}
    (hs : l.stepDelivery d a (l.deliveries d) = some l') :
    ∃ place', Ordered punctual failure l' place' := by
  cases hd : l.deliveries d with
  | idle =>
    cases a <;> simp only [hd, AgentLink.stepDelivery, reduceCtorEq, Option.some.injEq] at hs
    rename_i d' n r
    subst hs
    split
    · rename_i hn
      exact ⟨_, h.hold hd hn r⟩
    · rename_i hn
      exact ⟨place, (h.hear hn r).finished hd⟩
  | holding n r =>
    cases a <;> simp only [hd, AgentLink.stepDelivery, reduceCtorEq, Option.some.injEq] at hs
    subst hs
    exact ⟨_, h.setDelivered hd⟩
  | finished => cases a <;> simp [hd, AgentLink.stepDelivery] at hs

/-- The steps of a failing connection keep the link in order. -/
theorem Ordered.stepFailing (h : Ordered punctual failure l place) {f : ℕ} {a : LinkStep ρ}
    (hs : l.stepFailing failure f a (l.failings f) = some l') :
    ∃ place', Ordered punctual failure l' place' := by
  cases hf : l.failings f with
  | idle =>
    cases a <;> simp only [hf, AgentLink.stepFailing, reduceCtorEq, Option.some.injEq] at hs
    subst hs
    exact ⟨place, h.marked hf _⟩
  | marked status =>
    cases a <;> simp only [hf, AgentLink.stepFailing, reduceCtorEq, Option.some.injEq] at hs
    subst hs
    exact ⟨_, h.take hf⟩
  | setting status rest =>
    cases a <;> cases rest <;>
      simp only [hf, AgentLink.stepFailing, reduceCtorEq, Option.some.injEq] at hs
    subst hs
    exact ⟨_, h.setFailed hf⟩

/-- Every step keeps the order, if it is in time. -/
theorem Ordered.step (h : Ordered punctual failure l place) {a : LinkStep ρ}
    (ht : punctual → l.timely a = true) (hs : l.step failure a = some l') :
    ∃ place', Ordered punctual failure l' place' := by
  cases a with
  | send t sent =>
    refine h.stepCall (fun hp t' n hc ha => ?_) hs
    cases ha
    simpa [AgentLink.timely, hc] using ht hp
  | check t | fetch t | enter t | erase t | mark t | wake t =>
    refine h.stepCall (fun _ _ _ _ ha => ?_) hs
    cases ha
  | deliver d n r | setDelivered d => exact h.stepDelivery hs
  | failAll f status | take f | setFailed f => exact h.stepFailing hs

/-! ### Every run -/

/-- What callers rely on: no promise is set twice; a call that was answered got the first response
that was delivered for its identity since it was entered, or the answer of a `fail_all`; and a
promise that is waited for is in the table, or with somebody who is about to set it, or set. -/
structure Served (failure : Status → ρ) (l : AgentLink ρ) : Prop where
  once : l.broken = false
  answers : ∀ t n r, l.calls t = .returned (some n) (.got r) → Due failure l n r
  awaited : ∀ t n, l.calls t = .waiting n → n ∈ l.pending ∨
    (∃ d r, l.deliveries d = .holding n r) ∨
    (∃ f status rest, l.failings f = .setting status rest ∧ n ∈ rest) ∨ ∃ r, l.value n = some r

/-- And once a `fail_all` is over, nobody waits for a promise that is in the table. -/
structure Answered (failure : Status → ρ) (l : AgentLink ρ) : Prop extends Served failure l where
  settled : ∀ f status, l.failings f = .setting status [] →
    ∀ t n, l.calls t = .waiting n → n ∉ l.pending

/-- What holds of an ordered link without a condition. -/
theorem Ordered.served (h : Ordered punctual failure l place) : Served failure l where
  once := h.once
  answers := h.replies
  awaited t n hc := by
    obtain ⟨habsent, hdropped⟩ := h.held t n (by rw [hc]; rfl)
    cases hp : place n with
    | absent => exact absurd hp habsent
    | dropped => exact absurd hp hdropped
    | pending => exact .inl ((h.pending n).mpr hp)
    | delivering d => exact .inr (.inl ⟨d, (h.delivering n d).mp hp⟩)
    | failing f => exact .inr (.inr (.inl ⟨f, (h.failing n f).mp hp⟩))
    | kept => exact .inr (.inr (.inr ((h.kept n).mp hp)))

/-- What holds of an ordered link whose requests are sent in time. -/
theorem Ordered.answered (h : Ordered True failure l place) : Answered failure l where
  toServed := h.served
  settled f status hf t n hc hn := by
    have hlate := h.late (h.emptied f status [] hf) n ((h.pending n).mp hn)
    exact absurd (hlate.symm.trans (h.timely trivial t n hc)) nofun

end AgentLink

/-- In every run of calls of `request`, `deliver` and `fail_all` on a link, every request is served;
and in those in which no send succeeds for a promise that was entered after a `fail_all` emptied the
table, every request is answered as its callers rely on. -/
theorem answered_of_run {failure : Status → ρ} {steps : List (LinkStep ρ)} {l : AgentLink ρ}
    (h : Transition.run (AgentLink.step failure) {} steps = some l) :
    l.Served failure ∧
      (Transition.throughout (AgentLink.step failure) AgentLink.timely {} steps = true →
        l.Answered failure) := by
  constructor
  · obtain ⟨place, hordered⟩ := Transition.invariant_of_step
      (I := fun l : AgentLink ρ => ∃ place, l.Ordered False failure place)
      (fun _ _ _ ho hs => ho.elim fun _ ho => ho.step False.elim hs) ⟨_, AgentLink.ordered_empty⟩ h
    exact hordered.served
  · intro ht
    obtain ⟨place, hordered⟩ := Transition.invariant
      (I := fun l : AgentLink ρ => ∃ place, l.Ordered True failure place)
      (fun _ _ _ ho hc hs => ho.elim fun _ ho => ho.step (fun _ => hc) hs)
      ⟨_, AgentLink.ordered_empty⟩ h ht
    exact hordered.answered

namespace Sample

/-- The connection ends between the entry of the first request and its send, and the second request
is answered twice. -/
def served : List (LinkStep (Except Status ℕ)) :=
  [.check 0, .fetch 0, .enter 0, .check 1, .fetch 1, .enter 1, .send 1 (.ok ()),
    .deliver 0 2 (.ok 7), .deliver 1 2 (.ok 8), .setDelivered 0, .wake 1,
    .failAll 0 (.of .connectionLost "the agent connection ended"), .take 0, .send 0 (.ok ()),
    .setFailed 0, .wake 0]

/-- A request sees the link alive and enters its promise after a `fail_all`. -/
def stranded : List (LinkStep (Except Status ℕ)) :=
  [.check 0, .failAll 0 (.of .connectionLost "the agent connection ended"), .take 0, .fetch 0,
    .enter 0, .send 0 (.ok ())]

end Sample

/-- The second request gets the first of its two answers, and the first one learns that the
connection ended. -/
theorem answered_served : ∃ l,
    Transition.run (AgentLink.step Except.error) {} Sample.served = some l ∧
    l.Answered Except.error ∧ l.calls 1 = .returned (some 2) (.got (.ok 7)) ∧
    l.calls 0 = .returned (some 1)
      (.got (.error (.of .connectionLost "the agent connection ended"))) := by
  have hrun : ∃ l, Transition.run (AgentLink.step Except.error) {} Sample.served = some l ∧
      l.calls 1 = .returned (some 2) (.got (.ok 7)) ∧ l.calls 0 = .returned (some 1)
        (.got (.error (.of .connectionLost "the agent connection ended"))) :=
    ⟨_, rfl, rfl, rfl⟩
  obtain ⟨l, hl, h1, h0⟩ := hrun
  exact ⟨l, hl, (answered_of_run hl).2 rfl, h1, h0⟩

/-- A request waits for a promise that is in the table after the `fail_all` is over. -/
theorem not_answered_stranded :
    ∃ l, Transition.run (AgentLink.step Except.error) {} Sample.stranded = some l ∧
      (∃ status, l.failings 0 = .setting status []) ∧ l.calls 0 = .waiting 1 ∧ 1 ∈ l.pending ∧
      ¬ l.Answered Except.error := by
  refine ⟨_, rfl, ⟨_, rfl⟩, rfl, List.mem_cons_self, fun h => ?_⟩
  exact h.settled 0 _ rfl 0 1 rfl List.mem_cons_self

end AcceleratorVirtualization
