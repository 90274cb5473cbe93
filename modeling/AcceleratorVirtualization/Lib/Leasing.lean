import Mathlib.Algebra.BigOperators.Finprod
import Mathlib.Data.List.Dedup
import Mathlib.Logic.Relation

/-!
# Leases of seats

A tenant owns seats and uses them through leases. A seat is in a phase; some phases are occupied
and need a lease that is in use, some are vacant and allow none. A lease carries the stamp of what
it was granted under: the phase of the seat and the era. The use of a seat is counted three times,
by the seat, by an account of its owner and by a total.

`Step` is everything that may happen to such a book. The invariants are derived from it: `Leased`
(the leases of a seat are its own and its count is right) is kept by every step, `Bound` (a lease
in use carries the current stamp) by the tight ones, `Balanced` (the three counts agree) by the
fair ones. What a step does to a seat is a parameter of it, so that a run of steps does it too.
-/


namespace Leasing

/-- A seat: who owns it, its phase, how many of its leases are in use, and all of them. -/
@[ext]
structure Seat (T L Φ : Type*) where
  owner : T
  phase : Φ
  active : ℕ
  leases : List L

/-- A lease of a seat to a tenant, with the stamp of what it was granted under. -/
@[ext]
structure Lease (S T E : Type*) where
  seat : S
  tenant : T
  stamp : E
  live : Bool

/-- All seats and leases, with the accounts, the total and the era. -/
@[ext]
structure Book (S T L Φ E A : Type*) where
  seat : S → Option (Seat T L Φ)
  lease : L → Option (Lease S T E)
  account : T → ℕ
  total : ℕ
  era : A

/-- Which phases need a lease in use, which allow none, and what stamp is current. -/
structure Rules (Φ E A : Type*) where
  occupied : Φ → Prop
  vacant : Φ → Prop
  stamp : Φ → A → E

namespace Book

section Steps

variable {S T L Φ E A : Type*} [DecidableEq S] [DecidableEq T] [DecidableEq L]
variable (B : Book S T L Φ E A) (x : S) (q : Seat T L Φ)

/-! ### Changes -/

/-- Whether a lease is in use. -/
def live (l : L) : Bool := (B.lease l).any (·.live)

/-- How many of the listed leases are in use. -/
def inUse (ls : List L) : ℕ := (ls.filter B.live).length

/-- Enter a seat. -/
def assign : Book S T L Φ E A := { B with seat := Function.update B.seat x (some q) }

/-- Enter a lease. -/
def issue (l : L) (r : Lease S T E) : Book S T L Φ E A :=
  { B with lease := Function.update B.lease l (some r) }

/-- The listed leases are no longer in use. -/
def stop (ls : List L) : Book S T L Φ E A :=
  { B with
    lease := fun l => if l ∈ ls then (B.lease l).map fun r => { r with live := false }
      else B.lease l }

/-- The listed leases that are in use get another stamp. -/
def restamp (ls : List L) (g : E → E) : Book S T L Φ E A :=
  { B with
    lease := fun l => if l ∈ ls then (B.lease l).map fun r =>
        if r.live then { r with stamp := g r.stamp } else r
      else B.lease l }

/-- Take a use off the account of a tenant and the total. -/
def discharge (t : T) (n : ℕ) : Book S T L Φ E A :=
  { B with account := Function.update B.account t (B.account t - n), total := B.total - n }

/-- Book a use to the account of a tenant and the total. -/
def charge (t : T) : Book S T L Φ E A :=
  { B with account := Function.update B.account t (B.account t + 1), total := B.total + 1 }

/-- Set the account of a tenant. -/
def credit (t : T) (n : ℕ) : Book S T L Φ E A :=
  { B with account := Function.update B.account t n }

/-- Set the total. -/
def bill (n : ℕ) : Book S T L Φ E A := { B with total := n }

/-- Stop all leases of a seat and take them off the counts. A seat without a lease in use is left
alone. -/
def shut : Book S T L Φ E A :=
  let n := B.inUse q.leases
  ((B.stop q.leases).discharge q.owner n).assign x
    { q with active := if n = 0 then q.active else 0 }

/-! ### Invariants -/

/-- The leases of a seat are its own, the seat counts those in use, and they belong to its owner.
An occupied phase has one and a vacant phase none. -/
structure Leased (rules : Rules Φ E A) : Prop where
  listed : ∀ l r, B.lease l = some r → ∃ q, B.seat r.seat = some q ∧ l ∈ q.leases
  own : ∀ x q l, B.seat x = some q → l ∈ q.leases → ∃ r, B.lease l = some r ∧ r.seat = x
  nodup : ∀ x q, B.seat x = some q → q.leases.Nodup
  counted : ∀ x q, B.seat x = some q → q.active = B.inUse q.leases
  owner : ∀ l r q, B.lease l = some r → r.live = true → B.seat r.seat = some q →
    r.tenant = q.owner
  occupied : ∀ x q, B.seat x = some q → rules.occupied q.phase → 0 < q.active
  vacant : ∀ x q, B.seat x = some q → rules.vacant q.phase → q.active = 0

/-- A lease in use is of an occupied seat and carries the current stamp. -/
def Bound (rules : Rules Φ E A) : Prop :=
  ∀ l r q, B.lease l = some r → r.live = true → B.seat r.seat = some q →
    rules.occupied q.phase ∧ r.stamp = rules.stamp q.phase B.era

/-- What a seat adds to the use of the tenants with a property. -/
def share (p : T → Prop) [DecidablePred p] : Option (Seat T L Φ) → ℕ
  | none => 0
  | some q => if p q.owner then q.active else 0

/-- The use of the tenants with a property. -/
noncomputable def load (p : T → Prop) [DecidablePred p] : ℕ := ∑ᶠ x, share p (B.seat x)

/-- The accounts and the total count what the seats do. -/
structure Balanced : Prop where
  finite : {x | B.seat x ≠ none}.Finite
  account : ∀ t, B.account t = B.load (· = t)
  total : B.total = B.load fun _ => True

/-! ### Steps -/

/-- What may happen to a book. A seat that is entered is `N`, and every step that changes a seat
does `R` to it; a tight step does
not change the stamp under a lease in use, and a fair one keeps the counts in balance. -/
inductive Step (rules : Rules Φ E A) (R : Seat T L Φ → Seat T L Φ → Prop) (N : Seat T L Φ → Prop)
    (tight fair : Prop) :
    Book S T L Φ E A → Book S T L Φ E A → Prop
  /-- A seat that nobody has used. -/
  | enroll {B : Book S T L Φ E A} {x : S} {q : Seat T L Φ} (hx : B.seat x = none) (hN : N q)
      (hactive : q.active = 0) (hleases : q.leases = []) (hphase : ¬ rules.occupied q.phase) :
      Step rules R N tight fair B (B.assign x q)
  /-- The phase of a seat, with its leases as they are. -/
  | edit {B : Book S T L Φ E A} {x : S} {q : Seat T L Φ} {φ : Φ} (hx : B.seat x = some q)
      (hR : R q { q with phase := φ }) (hoccupied : rules.occupied φ → rules.occupied q.phase)
      (hvacant : rules.vacant φ → rules.vacant q.phase ∨ q.active = 0)
      (htight : tight → rules.occupied q.phase → q.active = 0 ∨
        rules.occupied φ ∧ ∀ a, rules.stamp φ a = rules.stamp q.phase a) :
      Step rules R N tight fair B (B.assign x { q with phase := φ })
  /-- The phase of an occupied seat, with its leases carried along. -/
  | carry {B : Book S T L Φ E A} {x : S} {q : Seat T L Φ} {φ : Φ} {g : E → E}
      (hx : B.seat x = some q) (hR : R q { q with phase := φ }) (hφ : rules.occupied φ)
      (hq : rules.occupied q.phase) (hvacant : ¬ rules.vacant φ)
      (hstamp : ∀ a, g (rules.stamp q.phase a) = rules.stamp φ a) :
      Step rules R N tight fair B ((B.restamp q.leases g).assign x { q with phase := φ })
  /-- All leases of a seat end. Then its owner may change as well as its phase. -/
  | close {B : Book S T L Φ E A} {x : S} {q : Seat T L Φ} {t : T} {φ : Φ} {n : ℕ}
      (hx : B.seat x = some q) (hR : R q ⟨t, φ, n, q.leases⟩)
      (hn : q.active = B.inUse q.leases → n = 0) (hφ : ¬ rules.occupied φ) :
      Step rules R N tight fair B ((B.shut x q).assign x ⟨t, φ, n, q.leases⟩)
  /-- A new lease. -/
  | grant {B : Book S T L Φ E A} {x : S} {q : Seat T L Φ} {l : L} {r : Lease S T E} {φ : Φ}
      {ls : List L} (hx : B.seat x = some q) (hR : R q ⟨q.owner, φ, q.active + 1, ls⟩)
      (hl : B.lease l = none) (hls : ls.Perm (l :: q.leases)) (hr : r.seat = x)
      (howner : r.tenant = q.owner) (hlive : r.live = true)
      (hstamp : r.stamp = rules.stamp φ B.era) (hφ : rules.occupied φ)
      (hvacant : ¬ rules.vacant φ) (hq : ¬ rules.occupied q.phase) :
      Step rules R N tight fair B
        (((B.issue l r).charge q.owner).assign x ⟨q.owner, φ, q.active + 1, ls⟩)
  /-- A lease ends; with the last one the seat leaves an occupied phase. -/
  | finish {B : Book S T L Φ E A} {x : S} {q : Seat T L Φ} {l : L} {r : Lease S T E} {φ : Φ}
      (hx : B.seat x = some q) (hR : R q { q with phase := φ, active := q.active - 1 })
      (hl : B.lease l = some r) (hr : r.seat = x) (hlive : r.live = true)
      (hlast : q.active - 1 = 0 → ¬ rules.occupied φ)
      (hmore : q.active - 1 ≠ 0 → φ = q.phase) (hvacant : rules.vacant φ → rules.vacant q.phase) :
      Step rules R N tight fair B
        (((B.stop [l]).discharge r.tenant 1).assign x { q with phase := φ, active := q.active - 1 })
  /-- Every lease ends, nothing is in use, and the era may change. -/
  | reset {B B' : Book S T L Φ E A} (hseat : ∀ x q, B.seat x = some q →
        ∃ φ, ¬ rules.occupied φ ∧ B'.seat x = some ⟨q.owner, φ, 0, q.leases⟩ ∧
          R q ⟨q.owner, φ, 0, q.leases⟩)
      (hnone : ∀ x, B.seat x = none → B'.seat x = none)
      (hlease : ∀ l, (B'.lease l).map (fun r => (r.seat, r.tenant)) =
        (B.lease l).map fun r => (r.seat, r.tenant))
      (hlive : ∀ l, B'.live l = false) (haccount : ∀ t, B'.account t = 0) (htotal : B'.total = 0) :
      Step rules R N tight fair B B'
  /-- Another era. -/
  | advance {B : Book S T L Φ E A} {a : A} (htight : tight → ∀ l, B.live l = true → B.era = a) :
      Step rules R N tight fair B { B with era := a }
  /-- The counts, as they are found elsewhere. -/
  | audit {B : Book S T L Φ E A} {account : T → ℕ} {total : ℕ}
      (hfair : fair → B.Balanced → ({ B with account, total } : Book S T L Φ E A).Balanced) :
      Step rules R N tight fair B { B with account, total }

/-- Every lease ended and nothing is in use. -/
structure Resets (rules : Rules Φ E A) (R : Seat T L Φ → Seat T L Φ → Prop)
    (B B' : Book S T L Φ E A) : Prop where
  seat : ∀ x q, B.seat x = some q → ∃ φ, ¬ rules.occupied φ ∧
    B'.seat x = some ⟨q.owner, φ, 0, q.leases⟩ ∧ R q ⟨q.owner, φ, 0, q.leases⟩
  none : ∀ x, B.seat x = none → B'.seat x = none
  lease : ∀ l, (B'.lease l).map (fun r => (r.seat, r.tenant)) =
    (B.lease l).map fun r => (r.seat, r.tenant)
  live : ∀ l, B'.live l = false
  account : ∀ t, B'.account t = 0
  total : B'.total = 0

end Steps

variable {S T L Φ E A : Type*} {B : Book S T L Φ E A} {x : S} {q : Seat T L Φ}

/-- What a step does, given that seats change by `R`. -/
theorem Resets.step [DecidableEq S] [DecidableEq T] [DecidableEq L] {rules : Rules Φ E A}
    {R : Seat T L Φ → Seat T L Φ → Prop}
    {N : Seat T L Φ → Prop} {tight fair : Prop} {B B' : Book S T L Φ E A}
    (h : Resets rules R B B') : Step rules R N tight fair B B' :=
  .reset h.seat h.none h.lease h.live h.account h.total

/-- The relation looks at the new book only. -/
theorem Resets.congr {rules : Rules Φ E A} {R : Seat T L Φ → Seat T L Φ → Prop}
    {B B' B'' : Book S T L Φ E A} (h : Resets rules R B B') (hB : B'' = B') :
    Resets rules R B B'' := hB ▸ h

/-! ### Reading back -/

@[simp]
theorem seat_assign_self [DecidableEq S] : (B.assign x q).seat x = some q := Function.update_self ..

theorem seat_assign_of_ne [DecidableEq S] {y : S} (h : y ≠ x) : (B.assign x q).seat y = B.seat y :=
  Function.update_of_ne h ..

theorem lease_issue_self [DecidableEq L] {l : L} {r : Lease S T E} :
    (B.issue l r).lease l = some r :=
  Function.update_self ..

theorem lease_issue_of_ne [DecidableEq L] {l l' : L} {r : Lease S T E} (h : l' ≠ l) :
    (B.issue l r).lease l' = B.lease l' :=
  Function.update_of_ne h ..

/-- A lease is live when it is there and marked so. -/
theorem live_eq_true {l : L} : B.live l = true ↔ ∃ r, B.lease l = some r ∧ r.live = true := by
  unfold live
  cases B.lease l <;> simp

/-- After some leases are stopped, the others are as live as before. -/
theorem live_stop [DecidableEq L] {ls : List L} {l : L} :
    (B.stop ls).live l = (B.live l && decide (l ∉ ls)) := by
  unfold live stop
  by_cases hl : l ∈ ls <;> cases hr : B.lease l <;> simp [hl, hr]

/-- A lease that is live after others were stopped is the one it was. -/
theorem lease_stop_of_live [DecidableEq L] {ls : List L} {l : L} {r : Lease S T E}
    (h : (B.stop ls).lease l = some r)
    (hr : r.live = true) : B.lease l = some r ∧ l ∉ ls := by
  unfold stop at h
  by_cases hl : l ∈ ls
  · simp only [hl, if_true, Option.map_eq_some_iff] at h
    obtain ⟨r', -, rfl⟩ := h
    cases hr
  · simp only [hl, if_false] at h
    exact ⟨h, hl⟩

/-- Nothing is in use when no lease of the list is live. -/
theorem inUse_eq_zero {ls : List L} : B.inUse ls = 0 ↔ ∀ l ∈ ls, B.live l = false := by
  simp [inUse, List.filter_eq_nil_iff]

/-- A count of other leases. -/
theorem inUse_congr {B' : Book S T L Φ E A} {ls : List L} (h : ∀ l ∈ ls, B'.live l = B.live l) :
    B'.inUse ls = B.inUse ls := by
  unfold inUse
  rw [List.filter_congr h]

/-! ### Changes one after the other -/

/-- The later assignment of a seat counts. -/
theorem assign_assign [DecidableEq S] (q' : Seat T L Φ) :
    (B.assign x q).assign x q' = B.assign x q' := by
  simp only [assign, Function.update_idem]

/-- Assigning what a seat has changes nothing. -/
theorem assign_self [DecidableEq S] (h : B.seat x = some q) : B.assign x q = B := by
  simp only [assign, ← h, Function.update_eq_self]

/-- Stopping no lease changes nothing. -/
@[simp]
theorem stop_nil [DecidableEq L] : B.stop [] = B := by
  simp only [stop, List.not_mem_nil, if_false]

/-- Leases are stopped one at a time or all at once. -/
theorem stop_stop [DecidableEq L] (l : L) (ls : List L) :
    (B.stop [l]).stop ls = B.stop (l :: ls) := by
  simp only [stop, Book.mk.injEq, and_true, true_and]
  funext l'
  by_cases hl : l' = l
  · subst hl
    by_cases hm : l' ∈ ls <;> simp [hm, Function.comp_def]
  · by_cases hm : l' ∈ ls <;> simp [hl, hm]

/-- Giving no lease a new stamp changes nothing. -/
@[simp]
theorem restamp_nil [DecidableEq L] (g : E → E) : B.restamp [] g = B := by
  simp only [restamp, List.not_mem_nil, if_false]

/-- Leases are stamped one at a time or all at once. -/
theorem restamp_restamp [DecidableEq L] {g : E → E} (hg : ∀ e, g (g e) = g e) (l : L)
    (ls : List L) :
    (B.restamp [l] g).restamp ls g = B.restamp (l :: ls) g := by
  simp only [restamp, Book.mk.injEq, and_true, true_and]
  funext l'
  by_cases hl : l' = l
  · subst hl
    by_cases hm : l' ∈ ls
    · simp only [hm, if_true, List.mem_cons, true_or, List.not_mem_nil, or_false, Option.map_map]
      congr 1
      funext r
      simp only [Function.comp]
      split <;> simp_all
    · simp [hm]
  · by_cases hm : l' ∈ ls <;> simp [hl, hm]

/-- Stopping leases that are not in use. -/
theorem stop_of_not_live [DecidableEq L] {ls : List L} (h : ∀ l ∈ ls, B.live l = false) :
    B.stop ls = B := by
  refine Book.ext rfl (funext fun l => ?_) rfl rfl rfl
  simp only [stop]
  split
  · rename_i hl
    have hlive := h l hl
    unfold live at hlive
    cases hr : B.lease l with
    | none => rfl
    | some r =>
      rw [hr, Option.any_some] at hlive
      simp [← hlive]
  · rfl

/-- Shutting a seat where nothing is in use changes nothing. -/
theorem shut_of_not_inUse [DecidableEq S] [DecidableEq T] [DecidableEq L] (hx : B.seat x = some q)
    (h : B.inUse q.leases = 0) :
    B.shut x q = B := by
  have hstop : B.stop q.leases = B := stop_of_not_live (inUse_eq_zero.mp h)
  have hdischarge : B.discharge q.owner 0 = B := by
    simp [discharge]
  simp only [shut, hstop, h, if_true, hdischarge]
  exact assign_self hx

/-- A seat is shut and changed in either order. -/
theorem shut_assign [DecidableEq S] [DecidableEq T] [DecidableEq L] (q' : Seat T L Φ)
    (hleases : q'.leases = q.leases)
    (howner : q'.owner = q.owner) :
    (B.assign x q').shut x q' = (B.shut x q).assign x
      { q' with active := if B.inUse q.leases = 0 then q'.active else 0 } := by
  simp only [shut, assign_assign, hleases, howner]
  simp only [assign, stop, discharge, Function.update_idem]
  rfl

variable {rules : Rules Φ E A} {R : Seat T L Φ → Seat T L Φ → Prop} {N : Seat T L Φ → Prop}
variable {tight fair : Prop}
variable {B' : Book S T L Φ E A} {q' : Seat T L Φ} {l : L} {r : Lease S T E}

/-! ### Leases of a seat -/

/-- A lease is listed by no other seat. -/
theorem Leased.seat_eq (h : B.Leased rules) (hx : B.seat x = some q) (hl : l ∈ q.leases)
    (hr : B.lease l = some r) : r.seat = x := by
  obtain ⟨r', hr', hseat⟩ := h.own x q l hx hl
  rw [hr] at hr'
  rwa [Option.some.inj hr']

/-- A lease of a seat is on the list of the seat. -/
theorem Leased.mem_leases (h : B.Leased rules) (hx : B.seat x = some q) (hr : B.lease l = some r)
    (hseat : r.seat = x) : l ∈ q.leases := by
  obtain ⟨q', hq', hl⟩ := h.listed l r hr
  rw [hseat, hx] at hq'
  rwa [Option.some.inj hq']

/-- A seat without a lease in use. -/
theorem Leased.not_live (h : B.Leased rules) (hx : B.seat x = some q) (hactive : q.active = 0)
    (hl : l ∈ q.leases) : B.live l = false := by
  rw [h.counted x q hx] at hactive
  exact inUse_eq_zero.mp hactive l hl

/-- Only seats and leases decide whether the leases are in order. -/
theorem Leased.congr (h : B.Leased rules) (hseat : B'.seat = B.seat) (hlease : B'.lease = B.lease) :
    B'.Leased rules := by
  have hinUse : B'.inUse = B.inUse := by
    funext ls
    simp only [inUse, show B'.live = B.live by funext l; rw [live, live, hlease]]
  constructor
  · rw [hseat, hlease]
    exact h.listed
  · rw [hseat, hlease]
    exact h.own
  · rw [hseat]
    exact h.nodup
  · rw [hseat, hinUse]
    exact h.counted
  · rw [hseat, hlease]
    exact h.owner
  · rw [hseat]
    exact h.occupied
  · rw [hseat]
    exact h.vacant

/-- A change of one seat and of its leases. -/
theorem Leased.of_seat [DecidableEq S] {w : Seat T L Φ} (h : B.Leased rules)
    (hx : B.seat x = some q)
    (hseat : B'.seat = Function.update B.seat x (some w)) (hleases : w.leases = q.leases)
    (hlease : ∀ l, (B'.lease l).map (·.seat) = (B.lease l).map (·.seat))
    (hother : ∀ l, l ∉ q.leases → B'.lease l = B.lease l)
    (howner : ∀ l ∈ q.leases, ∀ r, B'.lease l = some r → r.live = true → r.tenant = w.owner)
    (hactive : w.active = B'.inUse q.leases) (hoccupied : rules.occupied w.phase → 0 < w.active)
    (hvacant : rules.vacant w.phase → w.active = 0) : B'.Leased rules := by
  have hself : B'.seat x = some w := by rw [hseat, Function.update_self]
  have hne : ∀ y, y ≠ x → B'.seat y = B.seat y := fun y hy => by
    rw [hseat, Function.update_of_ne hy]
  have hback : ∀ l r', B'.lease l = some r' → ∃ r, B.lease l = some r ∧ r.seat = r'.seat := by
    intro l r' hr'
    have hmap := hlease l
    rw [hr', Option.map_some] at hmap
    obtain ⟨r, hr, hrs⟩ := Option.map_eq_some_iff.mp hmap.symm
    exact ⟨r, hr, hrs⟩
  -- the leases of another seat are not among those that changed
  have hapart : ∀ y p l, y ≠ x → B.seat y = some p → l ∈ p.leases → l ∉ q.leases := by
    intro y p l hy hp hl hlq
    obtain ⟨r, hr, hry⟩ := h.own y p l hp hl
    exact hy (hry.symm.trans (h.seat_eq hx hlq hr))
  constructor
  · intro l r' hr'
    obtain ⟨r, hr, hrs⟩ := hback l r' hr'
    obtain ⟨p, hp, hl⟩ := h.listed l r hr
    rw [← hrs]
    by_cases hy : r.seat = x
    · rw [hy] at hp ⊢
      rw [hx] at hp
      refine ⟨w, hself, ?_⟩
      rw [hleases, Option.some.inj hp]
      exact hl
    · exact ⟨p, by rw [hne _ hy, hp], hl⟩
  · intro y p l hp hl
    have hex : ∃ r, B.lease l = some r ∧ r.seat = y := by
      by_cases hy : y = x
      · subst hy
        rw [hself] at hp
        cases hp
        exact h.own y q l hx (hleases ▸ hl)
      · exact h.own y p l (by rwa [← hne y hy]) hl
    obtain ⟨r, hr, hry⟩ := hex
    have hmap := hlease l
    rw [hr, Option.map_some] at hmap
    obtain ⟨r', hr', hrs⟩ := Option.map_eq_some_iff.mp hmap
    exact ⟨r', hr', hrs.trans hry⟩
  · intro y p hp
    by_cases hy : y = x
    · subst hy
      rw [hself] at hp
      cases hp
      rw [hleases]
      exact h.nodup y q hx
    · exact h.nodup y p (by rwa [← hne y hy])
  · intro y p hp
    by_cases hy : y = x
    · subst hy
      rw [hself] at hp
      cases hp
      rw [hleases]
      exact hactive
    · rw [hne y hy] at hp
      rw [h.counted y p hp]
      refine (inUse_congr fun l hl => ?_).symm
      unfold live
      rw [hother l (hapart y p l hy hp hl)]
  · intro l r' p hr' hlive hp
    obtain ⟨r, hr, hrs⟩ := hback l r' hr'
    by_cases hy : r'.seat = x
    · rw [hy, hself] at hp
      cases hp
      exact howner l (h.mem_leases hx hr (hrs.trans hy)) r' hr' hlive
    · rw [hne _ hy] at hp
      have hl : l ∉ q.leases := fun hl => hy (hrs.symm.trans (h.seat_eq hx hl hr))
      rw [hother l hl] at hr'
      exact h.owner l r' p hr' hlive hp
  · intro y p hp
    by_cases hy : y = x
    · subst hy
      rw [hself] at hp
      cases hp
      exact hoccupied
    · exact h.occupied y p (by rwa [← hne y hy])
  · intro y p hp
    by_cases hy : y = x
    · subst hy
      rw [hself] at hp
      cases hp
      exact hvacant
    · exact h.vacant y p (by rwa [← hne y hy])

/-! ### The invariant of the leases -/

/-- A new seat without leases keeps the book in order. -/
theorem Leased.enroll [DecidableEq S] (h : B.Leased rules) (hx : B.seat x = none)
    (hactive : q.active = 0)
    (hleases : q.leases = []) (hphase : ¬ rules.occupied q.phase) :
    (B.assign x q).Leased rules := by
  have hne : ∀ y p, B.seat y = some p → y ≠ x := by
    rintro y p hp rfl
    rw [hx] at hp
    cases hp
  have hcases : ∀ y p, (B.assign x q).seat y = some p → y = x ∧ p = q ∨ B.seat y = some p := by
    intro y p hp
    by_cases hy : y = x
    · subst hy
      rw [seat_assign_self] at hp
      exact .inl ⟨rfl, (Option.some.inj hp).symm⟩
    · exact .inr (by rwa [seat_assign_of_ne hy] at hp)
  constructor
  · intro l r hr
    obtain ⟨p, hp, hl⟩ := h.listed l r hr
    exact ⟨p, by rw [seat_assign_of_ne (hne _ p hp), hp], hl⟩
  · intro y p l hp hl
    obtain ⟨rfl, rfl⟩ | hp := hcases y p hp
    · simp [hleases] at hl
    · exact h.own y p l hp hl
  · intro y p hp
    obtain ⟨rfl, rfl⟩ | hp := hcases y p hp
    · simp [hleases]
    · exact h.nodup y p hp
  · intro y p hp
    obtain ⟨rfl, rfl⟩ | hp := hcases y p hp
    · simp [hleases, hactive, inUse]
    · exact h.counted y p hp
  · intro l r p hr hlive hp
    obtain ⟨p', hp', -⟩ := h.listed l r hr
    rw [seat_assign_of_ne (hne _ p' hp')] at hp
    exact h.owner l r p hr hlive hp
  · intro y p hp hphase'
    obtain ⟨rfl, rfl⟩ | hp := hcases y p hp
    · exact absurd hphase' hphase
    · exact h.occupied y p hp hphase'
  · intro y p hp hphase'
    obtain ⟨rfl, rfl⟩ | hp := hcases y p hp
    · exact hactive
    · exact h.vacant y p hp hphase'

/-- A seat may move to another phase that is as vacant and as occupied. -/
theorem Leased.edit [DecidableEq S] (h : B.Leased rules) {φ : Φ} (hx : B.seat x = some q)
    (hoccupied : rules.occupied φ → rules.occupied q.phase)
    (hvacant : rules.vacant φ → rules.vacant q.phase ∨ q.active = 0) :
    (B.assign x { q with phase := φ }).Leased rules :=
  h.of_seat hx rfl rfl (fun _ => rfl) (fun _ _ => rfl)
    (fun l hl r hr hlive => h.owner l r q hr hlive (by rwa [h.seat_eq hx hl hr]))
    (h.counted x q hx) (fun ho => h.occupied x q hx (hoccupied ho))
    fun hv => (hvacant hv).elim (h.vacant x q hx) id

/-- A lease with a new stamp is otherwise the one it was. -/
theorem lease_restamp [DecidableEq L] {ls : List L} {g : E → E}
    (hr : (B.restamp ls g).lease l = some r) :
    ∃ r', B.lease l = some r' ∧ r.seat = r'.seat ∧ r.tenant = r'.tenant ∧ r.live = r'.live ∧
      (r.live = true → l ∈ ls → r.stamp = g r'.stamp) := by
  unfold restamp at hr
  by_cases hl : l ∈ ls
  · simp only [hl, if_true, Option.map_eq_some_iff] at hr
    obtain ⟨r', hr', rfl⟩ := hr
    refine ⟨r', hr', ?_⟩
    split <;> simp_all
  · simp only [hl, if_false] at hr
    exact ⟨r, hr, rfl, rfl, rfl, fun _ hc => absurd hc hl⟩

/-- A new stamp leaves a lease as live as it was. -/
theorem live_restamp [DecidableEq L] {ls : List L} {g : E → E} :
    (B.restamp ls g).live l = B.live l := by
  unfold live restamp
  by_cases hl : l ∈ ls
  · cases hr : B.lease l with
    | none => simp [hl, hr]
    | some r => cases hlive : r.live <;> simp [hl, hr, hlive]
  · simp [hl]

/-- A seat moves to a new phase with its leases stamped anew. -/
theorem Leased.carry [DecidableEq S] [DecidableEq L] (h : B.Leased rules) {φ : Φ} {g : E → E}
    (hx : B.seat x = some q)
    (hq : rules.occupied q.phase) (hvacant : ¬ rules.vacant φ) :
    ((B.restamp q.leases g).assign x { q with phase := φ }).Leased rules := by
  refine h.of_seat hx rfl rfl (fun l => ?_) (fun l hl => by simp [assign, restamp, hl]) ?_ ?_
    (fun _ => h.occupied x q hx hq) fun hv => absurd hv hvacant
  · change ((B.restamp q.leases g).lease l).map _ = _
    unfold restamp
    by_cases hl : l ∈ q.leases
    · simp only [hl, if_true, Option.map_map]
      congr 1
      funext r
      simp only [Function.comp]
      split <;> rfl
    · simp [hl]
  · intro l hl r hr hlive
    obtain ⟨r', hr', -, htenant, hlive', -⟩ := lease_restamp hr
    rw [htenant]
    exact h.owner l r' q hr' (hlive' ▸ hlive) (by rwa [h.seat_eq hx hl hr'])
  · exact (h.counted x q hx).trans (inUse_congr fun l _ => live_restamp).symm

/-- After all leases of a list were stopped none is in use. -/
theorem inUse_stop_self [DecidableEq L] {ls : List L} : (B.stop ls).inUse ls = 0 :=
  inUse_eq_zero.mpr fun l hl => by simp [live_stop, hl]

/-- Stopping leases leaves them with their seats. -/
theorem map_seat_stop [DecidableEq L] {ls : List L} :
    ((B.stop ls).lease l).map (·.seat) = (B.lease l).map (·.seat) := by
  unfold stop
  by_cases hl : l ∈ ls
  · simp [hl, Function.comp_def]
  · simp [hl]

/-- A seat may be closed once its leases are stopped. -/
theorem Leased.close [DecidableEq S] [DecidableEq T] [DecidableEq L] (h : B.Leased rules) {t : T}
    {φ : Φ} {n : ℕ} (hx : B.seat x = some q)
    (hn : q.active = B.inUse q.leases → n = 0) (hφ : ¬ rules.occupied φ) :
    ((B.shut x q).assign x ⟨t, φ, n, q.leases⟩).Leased rules := by
  have hn0 : n = 0 := hn (h.counted x q hx)
  refine h.of_seat (w := ⟨t, φ, n, q.leases⟩) hx ?_ rfl (fun l => map_seat_stop)
    (fun l hl => ?_) (fun l hl r hr hlive => ?_) ?_ (fun ho => absurd ho hφ) fun _ => hn0
  · change Function.update (Function.update B.seat x _) x _ = _
    rw [Function.update_idem]
  · change (B.stop q.leases).lease l = _
    simp [stop, hl]
  · exact absurd hl (lease_stop_of_live hr hlive).2
  · exact hn0.trans inUse_stop_self.symm

/-- Stopping one live lease leaves one less in use. -/
theorem inUse_stop_single [DecidableEq L] {ls : List L} (hls : ls.Nodup) (hl : l ∈ ls)
    (hlive : B.live l = true) :
    (B.stop [l]).inUse ls = B.inUse ls - 1 := by
  have hfilter : ls.filter (B.stop [l]).live = (ls.filter B.live).erase l := by
    rw [(hls.filter _).erase_eq_filter, List.filter_filter]
    refine List.filter_congr fun l' _ => ?_
    rw [live_stop, Bool.and_comm]
    simp only [List.mem_singleton, bne]
    congr 1
    by_cases heq : l' = l <;> simp [heq]
  unfold inUse
  rw [hfilter, List.length_erase_of_mem (List.mem_filter.mpr ⟨hl, hlive⟩)]

/-- Ending one live lease keeps the book in order. -/
theorem Leased.finish [DecidableEq S] [DecidableEq T] [DecidableEq L] (h : B.Leased rules) {φ : Φ}
    (hx : B.seat x = some q)
    (hl : B.lease l = some r) (hr : r.seat = x) (hlive : r.live = true)
    (hlast : q.active - 1 = 0 → ¬ rules.occupied φ)
    (hvacant : rules.vacant φ → rules.vacant q.phase) :
    (((B.stop [l]).discharge r.tenant 1).assign x
      { q with phase := φ, active := q.active - 1 }).Leased rules := by
  have hmem : l ∈ q.leases := h.mem_leases hx hl hr
  have hliveB : B.live l = true := live_eq_true.mpr ⟨r, hl, hlive⟩
  refine h.of_seat (w := { q with phase := φ, active := q.active - 1 }) hx rfl rfl
    (fun l => map_seat_stop) (fun l' hl' => ?_) (fun l' hl' r' hr' hlive' => ?_) ?_ ?_ ?_
  · have hne : l' ≠ l := fun hc => hl' (hc ▸ hmem)
    change (B.stop [l]).lease l' = _
    simp [stop, hne]
  · have hr' := (lease_stop_of_live hr' hlive').1
    exact h.owner l' r' q hr' hlive' (by rwa [h.seat_eq hx hl' hr'])
  · change q.active - 1 = (B.stop [l]).inUse q.leases
    rw [h.counted x q hx]
    exact (inUse_stop_single (h.nodup x q hx) hmem hliveB).symm
  · intro ho
    exact Nat.pos_of_ne_zero fun h0 => hlast h0 ho
  · intro hv
    have h0 : q.active = 0 := h.vacant x q hx (hvacant hv)
    change q.active - 1 = 0
    omega

/-- A fresh lease for a seat keeps the book in order. -/
theorem Leased.grant [DecidableEq S] [DecidableEq T] [DecidableEq L] (h : B.Leased rules) {φ : Φ}
    {ls : List L} (hx : B.seat x = some q)
    (hl : B.lease l = none) (hls : ls.Perm (l :: q.leases)) (hr : r.seat = x)
    (howner : r.tenant = q.owner) (hlive : r.live = true) (hvacant : ¬ rules.vacant φ) :
    (((B.issue l r).charge q.owner).assign x ⟨q.owner, φ, q.active + 1, ls⟩).Leased rules := by
  -- no seat has `l` yet
  have hfresh : ∀ y p, B.seat y = some p → l ∉ p.leases := by
    intro y p hp hmem
    obtain ⟨r', hr', -⟩ := h.own y p l hp hmem
    rw [hl] at hr'
    cases hr'
  have hlease : ∀ l', l' ≠ l → (B.issue l r).lease l' = B.lease l' := fun l' hne =>
    lease_issue_of_ne hne
  have hself : (B.issue l r).lease l = some r := lease_issue_self
  have hliveSelf : (B.issue l r).live l = true := live_eq_true.mpr ⟨r, hself, hlive⟩
  have hliveOther : ∀ l', l' ≠ l → (B.issue l r).live l' = B.live l' := fun l' hne => by
    unfold live
    rw [hlease l' hne]
  have hcases : ∀ y p, (((B.issue l r).charge q.owner).assign x
      ⟨q.owner, φ, q.active + 1, ls⟩).seat y = some p →
      y = x ∧ p = ⟨q.owner, φ, q.active + 1, ls⟩ ∨ y ≠ x ∧ B.seat y = some p := by
    intro y p hp
    by_cases hy : y = x
    · subst hy
      rw [seat_assign_self] at hp
      exact .inl ⟨rfl, (Option.some.inj hp).symm⟩
    · rw [seat_assign_of_ne hy] at hp
      exact .inr ⟨hy, hp⟩
  have hmem : ∀ l', l' ∈ ls ↔ l' = l ∨ l' ∈ q.leases := fun l' => by
    rw [hls.mem_iff, List.mem_cons]
  constructor
  · intro l' r' hr'
    by_cases hne : l' = l
    · subst hne
      have heq : r = r' := Option.some.inj (hself.symm.trans hr')
      subst heq
      rw [hr]
      exact ⟨_, seat_assign_self, (hmem l').mpr (.inl rfl)⟩
    · have hr' : B.lease l' = some r' := (hlease l' hne).symm.trans hr'
      obtain ⟨p, hp, hl'⟩ := h.listed l' r' hr'
      by_cases hy : r'.seat = x
      · rw [hy]
        exact ⟨_, seat_assign_self, (hmem l').mpr (.inr (h.mem_leases hx hr' hy))⟩
      · exact ⟨p, (seat_assign_of_ne hy).trans hp, hl'⟩
  · intro y p l' hp hl'
    obtain ⟨rfl, rfl⟩ | ⟨-, hp⟩ := hcases y p hp
    · obtain rfl | hl' := (hmem l').mp hl'
      · exact ⟨r, hself, hr⟩
      · obtain ⟨r', hr', hy⟩ := h.own y q l' hx hl'
        exact ⟨r', (hlease l' fun hc => hfresh y q hx (hc ▸ hl')).trans hr', hy⟩
    · obtain ⟨r', hr', hy⟩ := h.own y p l' hp hl'
      exact ⟨r', (hlease l' fun hc => hfresh y p hp (hc ▸ hl')).trans hr', hy⟩
  · intro y p hp
    obtain ⟨rfl, rfl⟩ | ⟨-, hp⟩ := hcases y p hp
    · exact hls.nodup_iff.mpr (List.nodup_cons.mpr ⟨hfresh y q hx, h.nodup y q hx⟩)
    · exact h.nodup y p hp
  · intro y p hp
    obtain ⟨rfl, rfl⟩ | ⟨-, hp⟩ := hcases y p hp
    · change q.active + 1 = (B.issue l r).inUse ls
      have hrest : (B.issue l r).inUse q.leases = B.inUse q.leases :=
        inUse_congr fun l' hl' => hliveOther l' fun hc => hfresh y q hx (hc ▸ hl')
      -- the new lease is the one that is counted in addition
      have hcons : (B.issue l r).inUse ls = (B.issue l r).inUse q.leases + 1 := by
        unfold inUse
        rw [(hls.filter _).length_eq, List.filter_cons_of_pos hliveSelf, List.length_cons]
      rw [hcons, hrest, h.counted y q hx]
    · rw [h.counted y p hp]
      exact (inUse_congr fun l' hl' => hliveOther l' fun hc => hfresh y p hp (hc ▸ hl')).symm
  · intro l' r' p hr' hlive' hp
    by_cases hne : l' = l
    · subst hne
      have heq : r = r' := Option.some.inj (hself.symm.trans hr')
      subst heq
      rw [hr, seat_assign_self] at hp
      cases hp
      exact howner
    · have hr' : B.lease l' = some r' := (hlease l' hne).symm.trans hr'
      obtain ⟨hy, rfl⟩ | ⟨-, hp⟩ := hcases _ p hp
      · exact h.owner l' r' q hr' hlive' (hy ▸ hx)
      · exact h.owner l' r' p hr' hlive' hp
  · intro y p hp ho
    obtain ⟨rfl, rfl⟩ | ⟨-, hp⟩ := hcases y p hp
    · exact Nat.succ_pos _
    · exact h.occupied y p hp ho
  · intro y p hp hv
    obtain ⟨rfl, rfl⟩ | ⟨-, hp⟩ := hcases y p hp
    · exact absurd hv hvacant
    · exact h.vacant y p hp hv

/-- A book in which nothing is in use. -/
theorem Leased.reset (h : B.Leased rules) (hseat : ∀ x q, B.seat x = some q →
      ∃ φ, ¬ rules.occupied φ ∧ B'.seat x = some ⟨q.owner, φ, 0, q.leases⟩)
    (hnone : ∀ x, B.seat x = none → B'.seat x = none)
    (hlease : ∀ l, (B'.lease l).map (fun r => (r.seat, r.tenant)) =
      (B.lease l).map fun r => (r.seat, r.tenant))
    (hlive : ∀ l, B'.live l = false) : B'.Leased rules := by
  -- every seat is a seat of before, with nothing in use
  have hback : ∀ x p, B'.seat x = some p → ∃ q φ, B.seat x = some q ∧ ¬ rules.occupied φ ∧
      p = ⟨q.owner, φ, 0, q.leases⟩ := by
    intro x p hp
    cases hq : B.seat x with
    | none =>
      rw [hnone x hq] at hp
      cases hp
    | some q =>
      obtain ⟨φ, hφ, hs⟩ := hseat x q hq
      rw [hs] at hp
      exact ⟨q, φ, rfl, hφ, (Option.some.inj hp).symm⟩
  have hnot : ∀ l r, B'.lease l = some r → r.live = true → False := by
    intro l r hr hl
    have hc := hlive l
    rw [live_eq_true.mpr ⟨r, hr, hl⟩] at hc
    cases hc
  constructor
  · intro l r hr
    have hm := hlease l
    rw [hr, Option.map_some] at hm
    obtain ⟨r', hr', heq⟩ := Option.map_eq_some_iff.mp hm.symm
    obtain ⟨q, hq, hl⟩ := h.listed l r' hr'
    obtain ⟨φ, -, hs⟩ := hseat _ q hq
    rw [← (Prod.mk.inj heq).1]
    exact ⟨_, hs, hl⟩
  · intro x p l hp hl
    obtain ⟨q, φ, hq, -, rfl⟩ := hback x p hp
    obtain ⟨r, hr, hrx⟩ := h.own x q l hq hl
    have hm := hlease l
    rw [hr, Option.map_some] at hm
    obtain ⟨r', hr', heq⟩ := Option.map_eq_some_iff.mp hm
    exact ⟨r', hr', (Prod.mk.inj heq).1.trans hrx⟩
  · intro x p hp
    obtain ⟨q, φ, hq, -, rfl⟩ := hback x p hp
    exact h.nodup x q hq
  · intro x p hp
    obtain ⟨q, φ, hq, -, rfl⟩ := hback x p hp
    exact (inUse_eq_zero.mpr fun l _ => hlive l).symm
  · intro l r p hr hl
    exact (hnot l r hr hl).elim
  · intro x p hp ho
    obtain ⟨q, φ, -, hφ, rfl⟩ := hback x p hp
    exact absurd ho hφ
  · intro x p hp _
    obtain ⟨q, φ, -, -, rfl⟩ := hback x p hp
    rfl

/-- Every step keeps the leases in order. -/
theorem Step.leased [DecidableEq S] [DecidableEq T] [DecidableEq L] (h : B.Leased rules)
    (hs : Step rules R N tight fair B B') :
    B'.Leased rules := by
  cases hs with
  | enroll hx _ hactive hleases hphase => exact h.enroll hx hactive hleases hphase
  | edit hx _ hoccupied hvacant => exact h.edit hx hoccupied hvacant
  | carry hx _ _ hq hvacant => exact h.carry hx hq hvacant
  | close hx _ hn hφ => exact h.close hx hn hφ
  | grant hx _ hl hls hr howner hlive _ _ hvacant =>
    exact h.grant hx hl hls hr howner hlive hvacant
  | finish hx _ hl hr hlive hlast _ hvacant => exact h.finish hx hl hr hlive hlast hvacant
  | reset hseat hnone hlease hlive =>
    refine h.reset (fun x q hq => ?_) hnone hlease hlive
    obtain ⟨φ, hφ, hs, -⟩ := hseat x q hq
    exact ⟨φ, hφ, hs⟩
  | advance => exact { h with }
  | audit => exact { h with }

/-! ### Current stamps -/

/-- Another seat than the one that changed, as a lease names it. -/
theorem Leased.seat_ne_of_not_mem (h : B.Leased rules) (hx : B.seat x = some q)
    (hr : B.lease l = some r) (hl : l ∉ q.leases) : r.seat ≠ x :=
  fun hc => hl (h.mem_leases hx hr hc)

/-- A tight step keeps the stamps of the leases in use current. -/
theorem Step.bound [DecidableEq S] [DecidableEq T] [DecidableEq L] (ht : tight)
    (hl : B.Leased rules) (h : B.Bound rules)
    (hs : Step rules R N tight fair B B') : B'.Bound rules := by
  cases hs with
  | @enroll x q hx =>
    intro l r p hr hlive hp
    obtain ⟨p', hp', -⟩ := hl.listed l r hr
    have hne : r.seat ≠ x := by
      rintro rfl
      rw [hx] at hp'
      cases hp'
    exact h l r p hr hlive ((seat_assign_of_ne hne).symm.trans hp)
  | @edit x q φ hx _ _ _ htight =>
    intro l r p hr hlive hp
    have hr : B.lease l = some r := hr
    by_cases hy : r.seat = x
    · have hB := h l r q hr hlive (hy ▸ hx)
      rw [hy, seat_assign_self] at hp
      cases hp
      obtain h0 | ⟨hφ, hstamp⟩ := htight ht hB.1
      · have hnot := hl.not_live hx h0 (hl.mem_leases hx hr hy)
        rw [live_eq_true.mpr ⟨r, hr, hlive⟩] at hnot
        cases hnot
      · exact ⟨hφ, hB.2.trans (hstamp _).symm⟩
    · exact h l r p hr hlive ((seat_assign_of_ne hy).symm.trans hp)
  | @carry x q φ g hx _ hφ hq _ hstamp =>
    intro l r p hr hlive hp
    obtain ⟨r', hr', hseat, -, hlive', hrestamp⟩ := lease_restamp hr
    by_cases hy : r.seat = x
    · have hmem : l ∈ q.leases := hl.mem_leases hx hr' (hseat.symm.trans hy)
      have hB := h l r' q hr' (hlive' ▸ hlive) (by rw [← hseat, hy, hx])
      rw [hy, seat_assign_self] at hp
      cases hp
      exact ⟨hφ, by rw [hrestamp hlive hmem, hB.2]; exact hstamp _⟩
    · -- a lease of another seat was not stamped anew
      have hmem : l ∉ q.leases := fun hc => hy (hseat.trans (hl.seat_eq hx hc hr'))
      have hr : B.lease l = some r := by
        simpa [assign, restamp, hmem] using hr
      exact h l r p hr hlive ((seat_assign_of_ne hy).symm.trans hp)
  | @close x q t φ n hx =>
    intro l r p hr hlive hp
    obtain ⟨hr, hmem⟩ := lease_stop_of_live hr hlive
    have hy := hl.seat_ne_of_not_mem hx hr hmem
    refine h l r p hr hlive ?_
    rw [seat_assign_of_ne hy] at hp
    exact (seat_assign_of_ne hy).symm.trans hp
  | @grant x q l₀ r₀ φ ls hx _ hnone _ hr₀ _ _ hstamp hφ _ hq =>
    intro l r p hr hlive hp
    by_cases hne : l = l₀
    · subst hne
      have heq : r₀ = r := Option.some.inj (lease_issue_self.symm.trans hr)
      subst heq
      rw [hr₀, seat_assign_self] at hp
      cases hp
      exact ⟨hφ, hstamp⟩
    · have hr : B.lease l = some r := (lease_issue_of_ne hne).symm.trans hr
      by_cases hy : r.seat = x
      · exact absurd (h l r q hr hlive (hy ▸ hx)).1 hq
      · exact h l r p hr hlive ((seat_assign_of_ne hy).symm.trans hp)
  | @finish x q l₀ r₀ φ hx _ hr₀ hx₀ hlive₀ _ hmore =>
    intro l r p hr hlive hp
    obtain ⟨hr, hne⟩ := lease_stop_of_live hr hlive
    by_cases hy : r.seat = x
    · have hB := h l r q hr hlive (hy ▸ hx)
      rw [hy, seat_assign_self] at hp
      cases hp
      -- another lease is in use, so this was not the last one
      have hmem := hl.mem_leases hx hr hy
      have hlast : q.active - 1 ≠ 0 := by
        rw [hl.counted x q hx, ← inUse_stop_single (hl.nodup x q hx)
          (hl.mem_leases hx hr₀ hx₀) (live_eq_true.mpr ⟨r₀, hr₀, hlive₀⟩), ne_eq, inUse_eq_zero]
        intro hall
        have hc := hall l hmem
        rw [live_stop, live_eq_true.mpr ⟨r, hr, hlive⟩] at hc
        simp only [Bool.true_and, decide_eq_false_iff_not, not_not] at hc
        exact hne hc
      rw [hmore hlast]
      exact hB
    · exact h l r p hr hlive ((seat_assign_of_ne hy).symm.trans hp)
  | reset _ _ _ hlive =>
    intro l r p hr hl'
    have hc := hlive l
    rw [live_eq_true.mpr ⟨r, hr, hl'⟩] at hc
    cases hc
  | advance htight =>
    intro l r p hr hlive hp
    obtain ⟨ho, hs⟩ := h l r p hr hlive hp
    exact ⟨ho, hs.trans (congrArg _ (htight ht l (live_eq_true.mpr ⟨r, hr, hlive⟩)))⟩
  | audit => exact h

/-! ### Counts -/

/-- Changing one summand. -/
theorem finsum_update_add {ι : Type*} [DecidableEq ι] {f : ι → ℕ} (hf : f.support.Finite) (i : ι)
    (b : ℕ) : ∑ᶠ j, Function.update f i b j + f i = ∑ᶠ j, f j + b := by
  have hmem : i ∈ insert i hf.toFinset := Finset.mem_insert_self _ _
  have hsub : Function.support f ⊆ ↑(insert i hf.toFinset) := fun j hj => by simp [hj]
  have hsub' : Function.support (Function.update f i b) ⊆ ↑(insert i hf.toFinset) := fun j hj => by
    by_cases hij : j = i
    · simp [hij]
    · rw [Function.mem_support, Function.update_of_ne hij] at hj
      simp [hj]
  rw [finsum_eq_sum_of_support_subset _ hsub, finsum_eq_sum_of_support_subset _ hsub',
    Finset.sum_update_of_mem hmem, Finset.sum_eq_add_sum_sdiff_singleton_of_mem hmem f]
  omega

variable {p : T → Prop} [DecidablePred p]

/-- Only the seats there are have a share. -/
theorem support_share (h : {x | B.seat x ≠ none}.Finite) :
    (Function.support fun x => share p (B.seat x)).Finite :=
  h.subset fun x hx hnone => hx (by simp [hnone, share])

/-- Entering a seat changes the use by what the seat adds. -/
theorem load_assign [DecidableEq S] (h : {x | B.seat x ≠ none}.Finite) :
    (B.assign x q).load p + share p (B.seat x) = B.load p + share p (some q) := by
  have hupdate : (fun y => share p ((B.assign x q).seat y)) =
      Function.update (fun y => share p (B.seat y)) x (share p (some q)) := by
    funext y
    by_cases hy : y = x
    · subst hy
      rw [seat_assign_self, Function.update_self]
    · rw [seat_assign_of_ne hy, Function.update_of_ne hy]
  unfold load
  rw [hupdate]
  exact finsum_update_add (support_share h) x _

/-- Assigning a seat leaves finitely many. -/
theorem finite_assign [DecidableEq S] (h : {x | B.seat x ≠ none}.Finite) :
    {y | (B.assign x q).seat y ≠ none}.Finite := by
  refine (h.insert x).subset fun y hy => ?_
  by_cases hyx : y = x
  · exact .inl hyx
  · rw [Set.mem_ofPred_eq, seat_assign_of_ne hyx] at hy
    exact .inr hy

/-- The use of a tenant includes that of each of its seats. -/
theorem share_le_load (h : {x | B.seat x ≠ none}.Finite) (x : S) :
    share p (B.seat x) ≤ B.load p :=
  single_le_finsum x (support_share h) fun _ => Nat.zero_le _

/-- A seat changes hands or use, and the accounts follow. -/
theorem Balanced.assign [DecidableEq S] [DecidableEq T] (h : B.Balanced) {a : T → ℕ} {n : ℕ}
    (haccount : ∀ t, a t + share (· = t) (B.seat x) = B.account t + share (· = t) (some q))
    (htotal : n + share (fun _ => True) (B.seat x) =
      B.total + share (fun _ => True) (some q)) :
    ({ B with account := a, total := n }.assign x q : Book S T L Φ E A).Balanced := by
  refine ⟨finite_assign h.finite, fun t => ?_, ?_⟩
  · have hload := load_assign (B := B) (x := x) (q := q) (p := (· = t)) h.finite
    have := haccount t
    rw [h.account t] at this
    change a t = (B.assign x q).load (· = t)
    omega
  · have hload := load_assign (B := B) (x := x) (q := q) (p := fun _ : T => True) h.finite
    rw [h.total] at htotal
    change n = (B.assign x q).load fun _ => True
    omega

/-- Balance is about seats, accounts and the total only. -/
theorem Balanced.congr [DecidableEq T] (h : B.Balanced) (hseat : B'.seat = B.seat)
    (haccount : B'.account = B.account)
    (htotal : B'.total = B.total) : B'.Balanced := by
  obtain ⟨hf, ha, ht⟩ := h
  refine ⟨?_, fun t => ?_, ?_⟩
  · rw [hseat]
    exact hf
  · rw [haccount, ha t, load, load, hseat]
  · rw [htotal, ht, load, load, hseat]

/-- An account that is set to what the seats say. -/
theorem Balanced.credit [DecidableEq T] (h : B.Balanced) {t : T} {n : ℕ} (hn : n = B.load (· = t)) :
    (B.credit t n).Balanced := by
  refine h.congr rfl ?_ rfl
  rw [hn, ← h.account t]
  exact Function.update_eq_self t B.account

/-- A tenant none of whose seats is in use. -/
theorem load_eq_zero {p : T → Prop} [DecidablePred p]
    (h : ∀ x q, B.seat x = some q → p q.owner → q.active = 0) : B.load p = 0 := by
  have hshare : ∀ x, share p (B.seat x) = 0 := by
    intro x
    cases hq : B.seat x with
    | none => rfl
    | some q =>
      simp only [share]
      split
      · exact h x q hq ‹_›
      · rfl
  simp [load, hshare]

theorem share_some (p : T → Prop) [DecidablePred p] (q : Seat T L Φ) :
    share p (some q) = if p q.owner then q.active else 0 := rfl

/-- A fair step keeps the counts in balance. -/
theorem Step.balanced [DecidableEq S] [DecidableEq T] [DecidableEq L] (hf : fair)
    (hl : B.Leased rules) (h : B.Balanced)
    (hs : Step rules R N tight fair B B') : B'.Balanced := by
  cases hs with
  | @enroll x q hx _ hactive =>
    refine Balanced.assign (a := B.account) (n := B.total) h (fun t => ?_) ?_ <;>
      simp [hx, share, hactive]
  | @edit x q φ hx =>
    refine Balanced.assign (a := B.account) (n := B.total) h (fun t => ?_) ?_ <;>
      simp [hx, share]
  | @carry x q φ g hx =>
    have hB : (B.restamp q.leases g).Balanced := h.congr rfl rfl rfl
    refine Balanced.assign (a := B.account) (n := B.total) hB (fun t => ?_) ?_ <;>
      simp [restamp, hx, share]
  | @close x q t φ n hx _ hn =>
    -- the leases of the seat stop, so its owner gives back what was in use
    have hn0 : n = 0 := hn (hl.counted x q hx)
    have hstop : (B.stop q.leases).Balanced := h.congr rfl rfl rfl
    have hB : ((B.stop q.leases).discharge q.owner (B.inUse q.leases)).assign x
        ⟨t, φ, n, q.leases⟩ = (B.shut x q).assign x ⟨t, φ, n, q.leases⟩ := by
      simp only [shut, Book.assign, Function.update_idem]
    rw [← hB]
    have hseat : (B.stop q.leases).seat x = some q := hx
    have hle := share_le_load (p := (· = q.owner)) h.finite x
    have hle' := share_le_load (p := fun _ : T => True) h.finite x
    rw [hx, share_some, if_pos rfl, ← h.account, hl.counted x q hx] at hle
    rw [hx, share_some, if_pos trivial, ← h.total, hl.counted x q hx] at hle'
    refine Balanced.assign hstop (fun t' => ?_) ?_
    · rw [hseat, share_some, share_some, hn0, hl.counted x q hx]
      change Function.update B.account q.owner _ t' + _ = B.account t' + _
      by_cases ht : q.owner = t'
      · subst ht
        rw [Function.update_self]
        change B.account q.owner - B.inUse q.leases + _ = _
        simp only [if_true, ite_self, Nat.add_zero]
        omega
      · rw [Function.update_of_ne (Ne.symm ht)]
        simp [ht]
    · rw [hseat, share_some, share_some, hn0, hl.counted x q hx]
      change B.total - B.inUse q.leases + _ = B.total + _
      simp only [if_true, Nat.add_zero]
      omega
  | @grant x q l r φ ls hx =>
    have hissue : (B.issue l r).Balanced := h.congr rfl rfl rfl
    have hseat : (B.issue l r).seat x = some q := hx
    refine Balanced.assign hissue (fun t' => ?_) ?_
    · rw [hseat, share_some, share_some]
      change Function.update B.account q.owner _ t' + _ = B.account t' + _
      by_cases ht : q.owner = t'
      · subst ht
        rw [Function.update_self]
        change B.account q.owner + 1 + _ = _
        simp only [if_true]
        omega
      · rw [Function.update_of_ne (Ne.symm ht)]
        simp [ht]
    · rw [hseat, share_some, share_some]
      change B.total + 1 + _ = B.total + _
      simp only [if_true]
      omega
  | @finish x q l r φ hx _ hr hrx hlive =>
    have hstop : (B.stop [l]).Balanced := h.congr rfl rfl rfl
    have hseat : (B.stop [l]).seat x = some q := hx
    -- the lease is live, so its tenant still owns the seat and the count is positive
    have howner : r.tenant = q.owner := hl.owner l r q hr hlive (hrx ▸ hx)
    have hpos : 0 < q.active := by
      refine Nat.pos_of_ne_zero fun h0 => ?_
      have hnot := hl.not_live hx h0 (hl.mem_leases hx hr hrx)
      rw [live_eq_true.mpr ⟨r, hr, hlive⟩] at hnot
      cases hnot
    have hle := share_le_load (p := (· = q.owner)) h.finite x
    have hle' := share_le_load (p := fun _ : T => True) h.finite x
    rw [hx, share_some, if_pos rfl, ← h.account] at hle
    rw [hx, share_some, if_pos trivial, ← h.total] at hle'
    refine Balanced.assign hstop (fun t' => ?_) ?_
    · rw [hseat, share_some, share_some, howner]
      change Function.update B.account q.owner _ t' + _ = B.account t' + _
      by_cases ht : q.owner = t'
      · subst ht
        rw [Function.update_self]
        change B.account q.owner - 1 + _ = _
        simp only [if_true]
        omega
      · rw [Function.update_of_ne (Ne.symm ht)]
        simp [ht]
    · rw [hseat, share_some, share_some]
      change B.total - 1 + _ = B.total + _
      simp only [if_true]
      omega
  | reset hseat hnone _ _ haccount htotal =>
    -- no seat has a share in the new counts
    have hshare : ∀ (p : T → Prop) [DecidablePred p] x, share p (B'.seat x) = 0 := by
      intro p _ x
      cases hq : B.seat x with
      | none => rw [hnone x hq, share]
      | some q =>
        obtain ⟨φ, -, hs, -⟩ := hseat x q hq
        simp [hs, share]
    refine ⟨h.finite.subset fun x hx hc => hx (hnone x hc), fun t => ?_, ?_⟩
    · simp [haccount, load, hshare]
    · simp [htotal, load, hshare]
  | advance => exact h.congr rfl rfl rfl
  | audit hfair => exact hfair hf h

/-! ### Runs of steps -/

section Runs

variable [DecidableEq S] [DecidableEq T] [DecidableEq L]

/-- A run of steps. -/
abbrev Steps (rules : Rules Φ E A) (R : Seat T L Φ → Seat T L Φ → Prop) (N : Seat T L Φ → Prop)
    (tight fair : Prop) :
    Book S T L Φ E A → Book S T L Φ E A → Prop :=
  Relation.ReflTransGen (Step rules R N tight fair)

/-- A run keeps the book in order. -/
theorem Steps.leased (h : B.Leased rules) (hs : Steps rules R N tight fair B B') :
    B'.Leased rules := by
  induction hs with
  | refl => exact h
  | tail _ hstep ih => exact hstep.leased ih

/-- A run of tight steps keeps leases bound to their seats. -/
theorem Steps.bound (ht : tight) (hl : B.Leased rules) (h : B.Bound rules)
    (hs : Steps rules R N tight fair B B') : B'.Bound rules := by
  induction hs with
  | refl => exact h
  | tail hs hstep ih => exact hstep.bound ht (Steps.leased hl hs) ih

/-- A run of fair steps keeps the book balanced. -/
theorem Steps.balanced (hf : fair) (hl : B.Leased rules) (h : B.Balanced)
    (hs : Steps rules R N tight fair B B') : B'.Balanced := by
  induction hs with
  | refl => exact h
  | tail hs hstep ih => exact hstep.balanced hf (Steps.leased hl hs) ih

/-- What one step does to a seat. -/
theorem Step.seat (hR : ∀ q, R q q) (hs : Step rules R N tight fair B B') (hx : B.seat x = some q) :
    ∃ q', B'.seat x = some q' ∧ R q q' := by
  have hassign : ∀ (C : Book S T L Φ E A) y p p', C.seat = B.seat ∨ C.seat =
      Function.update B.seat y (some p') → B.seat y = some p → ∀ q₁, R p q₁ →
      ∃ q', (C.assign y q₁).seat x = some q' ∧ R q q' := by
    intro C y p p' hC hp q₁ hRp
    by_cases hxy : x = y
    · subst hxy
      rw [hx] at hp
      cases hp
      exact ⟨q₁, seat_assign_self, hRp⟩
    · refine ⟨q, ?_, hR q⟩
      rw [seat_assign_of_ne hxy]
      obtain hC | hC := hC
      · rw [hC, hx]
      · rw [hC, Function.update_of_ne hxy, hx]
  cases hs with
  | @enroll y p hy =>
    have hxy : x ≠ y := by
      rintro rfl
      rw [hx] at hy
      cases hy
    exact ⟨q, (seat_assign_of_ne hxy).trans hx, hR q⟩
  | @edit y p φ hy hRp => exact hassign B y p p (.inl rfl) hy _ hRp
  | @carry y p φ g hy hRp => exact hassign _ y p p (.inl rfl) hy _ hRp
  | @close y p t φ n hy hRp => exact hassign _ y p _ (.inr rfl) hy _ hRp
  | @grant y p l r φ ls hy hRp => exact hassign _ y p p (.inl rfl) hy _ hRp
  | @finish y p l r φ hy hRp => exact hassign _ y p p (.inl rfl) hy _ hRp
  | reset hseat =>
    obtain ⟨φ, -, hs, hRq⟩ := hseat x q hx
    exact ⟨_, hs, hRq⟩
  | advance => exact ⟨q, hx, hR q⟩
  | audit => exact ⟨q, hx, hR q⟩

/-- What a run of steps does to a seat. -/
theorem Steps.seat (hR : ∀ q, R q q) (htrans : ∀ q q' q'', R q q' → R q' q'' → R q q'')
    (hs : Steps rules R N tight fair B B') (hx : B.seat x = some q) :
    ∃ q', B'.seat x = some q' ∧ R q q' := by
  induction hs with
  | refl => exact ⟨q, hx, hR q⟩
  | tail _ hstep ih =>
    obtain ⟨q₁, hq₁, hR₁⟩ := ih
    obtain ⟨q₂, hq₂, hR₂⟩ := hstep.seat hR hq₁
    exact ⟨q₂, hq₂, htrans q q₁ q₂ hR₁ hR₂⟩

/-- A seat as it is entered. -/
def Blank (rules : Rules Φ E A) (q : Seat T L Φ) : Prop :=
  q.active = 0 ∧ q.leases = [] ∧ ¬ rules.occupied q.phase

/-- Where a seat comes from: it was there, or it was entered. -/
theorem Step.seat_inv (hR : ∀ q, R q q) (hs : Step rules R N tight fair B B')
    (hx : B'.seat x = some q') :
    ∃ q, (B.seat x = some q ∨ B.seat x = none ∧ Blank rules q ∧ N q) ∧ R q q' := by
  obtain hq | ⟨q, hq⟩ := Option.eq_none_or_eq_some (B.seat x)
  · have hassign : ∀ (C : Book S T L Φ E A) y p p', C.seat = B.seat ∨ C.seat =
        Function.update B.seat y (some p') → B.seat y = some p → ∀ q₁,
        (C.assign y q₁).seat x = none := by
      intro C y p p' hC hp q₁
      have hxy : x ≠ y := by
        rintro rfl
        rw [hq] at hp
        cases hp
      rw [seat_assign_of_ne hxy]
      obtain hC | hC := hC
      · rw [hC, hq]
      · rw [hC, Function.update_of_ne hxy, hq]
    have hcontra : B'.seat x = none →
        ∃ q, (B.seat x = some q ∨ B.seat x = none ∧ Blank rules q ∧ N q) ∧ R q q' := by
      intro hnone
      rw [hnone] at hx
      cases hx
    cases hs with
    | @enroll y p hy hN hactive hleases hphase =>
      by_cases hxy : x = y
      · subst hxy
        rw [seat_assign_self] at hx
        cases hx
        exact ⟨_, .inr ⟨hq, ⟨hactive, hleases, hphase⟩, hN⟩, hR _⟩
      · exact hcontra ((seat_assign_of_ne hxy).trans hq)
    | @edit y p φ hy => exact hcontra (hassign B y p p (.inl rfl) hy _)
    | @carry y p φ g hy => exact hcontra (hassign _ y p p (.inl rfl) hy _)
    | @close y p t φ n hy => exact hcontra (hassign _ y p _ (.inr rfl) hy _)
    | @grant y p l r φ ls hy => exact hcontra (hassign _ y p p (.inl rfl) hy _)
    | @finish y p l r φ hy => exact hcontra (hassign _ y p p (.inl rfl) hy _)
    | reset _ hnone => exact hcontra (hnone x hq)
    | advance => exact hcontra hq
    | audit => exact hcontra hq
  · obtain ⟨q₁, hq₁, hRq⟩ := hs.seat hR hq
    rw [hx] at hq₁
    cases hq₁
    exact ⟨q, .inl hq, hRq⟩

/-- The same for a run of steps. -/
theorem Steps.seat_inv (hR : ∀ q, R q q) (htrans : ∀ q q' q'', R q q' → R q' q'' → R q q'')
    (hs : Steps rules R N tight fair B B') (hx : B'.seat x = some q') :
    ∃ q, (B.seat x = some q ∨ B.seat x = none ∧ Blank rules q ∧ N q) ∧ R q q' := by
  induction hs generalizing q' with
  | refl => exact ⟨q', .inl hx, hR q'⟩
  | tail hs hstep ih =>
    obtain ⟨q₁, hq₁ | ⟨hnone, hblank⟩, hR₁⟩ := hstep.seat_inv hR hx
    · obtain ⟨q₀, hq₀, hR₀⟩ := ih hq₁
      exact ⟨q₀, hq₀, htrans q₀ q₁ q' hR₀ hR₁⟩
    · -- a seat that is entered now was not there before
      refine ⟨q₁, .inr ⟨?_, hblank⟩, hR₁⟩
      by_contra hsome
      obtain ⟨q₀, hq₀⟩ := Option.ne_none_iff_exists'.mp hsome
      obtain ⟨q₂, hq₂, -⟩ := Steps.seat hR htrans hs hq₀
      rw [hnone] at hq₂
      cases hq₂

end Runs

end Book

end Leasing
