import Mathlib.Logic.Function.Basic
import Mathlib.Logic.Relation
import Mathlib.Order.Basic

/-!
# Hand-overs in two phases

A hand-over passes from one grant to another. It is planned; a second grant is prepared for it;
then it is carried out, which ends the first grant and makes the second one active, or it is
dropped, which ends the second. `Step` is everything that may happen to grants and hand-overs.

A grant goes from prepared to active to ended and never back (`Steps.stage`), a hand-over is
carried out or dropped at most once (`Steps.passage`), and what became of its grants then is final
(`Orderly`). Which hand-overs become ready in a run of steps, and which cease to be, are
parameters of it.
-/


namespace Handover

/-- How far a grant has come. -/
inductive Stage
  | prepared | active | ended
  deriving DecidableEq

/-- A grant may skip a stage, but it does not go back. -/
def Stage.rank : Stage → ℕ
  | .prepared => 0
  | .active => 1
  | .ended => 2

/-- How far a hand-over has come; a stray one is in none of these states. -/
inductive Progress
  | planned | ready | done | completed | aborted | stray
  deriving DecidableEq

/-- Where a hand-over may be some time after it was at a point. -/
inductive Progress.Before : Progress → Progress → Prop
  | refl (p : Progress) : Before p p
  | ready : Before .planned .ready
  | done {p : Progress} (h : p = .planned ∨ p = .ready) : Before p .done
  | completed {p : Progress} (h : p ≠ .aborted) (h' : p ≠ .stray) : Before p .completed
  | aborted {p : Progress} (h : p = .planned ∨ p = .ready) : Before p .aborted

/-- The order of progress is transitive. -/
theorem Progress.Before.trans {p q r : Progress} (h : Before p q) (h' : Before q r) :
    Before p r := by
  cases h' with
  | refl => exact h
  | ready =>
    cases h
    exact .ready
  | done h' =>
    cases h with
    | refl => exact .done h'
    | ready => exact .done (.inl rfl)
    | done | completed | aborted => simp at h'
  | completed h1 h2 =>
    cases h with
    | refl => exact .completed h1 h2
    | ready => exact .completed nofun nofun
    | done h => exact .completed (by rintro rfl; simp at h) (by rintro rfl; simp at h)
    | completed h3 h4 => exact .completed h3 h4
    | aborted => exact absurd rfl h1
  | aborted h' =>
    cases h with
    | refl => exact .aborted h'
    | ready => exact .aborted (.inl rfl)
    | done | completed | aborted => simp at h'

/-- A hand-over of a party, from a grant to one that is prepared for it; `stamp` is the state of
the party it was last adjusted to. -/
structure Passage (P G : Type*) where
  party : P
  source : G
  target : Option G
  stamp : ℕ
  progress : Progress

/-- What may become of a hand-over: its party and its source stay, and so does a grant that was
prepared for it. -/
structure Passage.Before {P G : Type*} (v v' : Passage P G) : Prop where
  party : v'.party = v.party
  source : v'.source = v.source
  target : ∀ g, v.target = some g → v'.target = some g
  progress : v.progress.Before v'.progress

/-- A passage has come as far as itself. -/
theorem Passage.Before.refl {P G : Type*} (v : Passage P G) : v.Before v :=
  ⟨rfl, rfl, fun _ h => h, .refl _⟩

/-- The order of passages is transitive. -/
theorem Passage.Before.trans {P G : Type*} {v v' v'' : Passage P G} (h : v.Before v')
    (h' : v'.Before v'') :
    v.Before v'' :=
  ⟨h'.party.trans h.party, h'.source.trans h.source, fun g hg => h'.target g (h.target g hg),
    h.progress.trans h'.progress⟩

/-- All grants and hand-overs. -/
@[ext]
structure Register (P G M : Type*) where
  stage : G → Option Stage
  passage : M → Option (Passage P G)

namespace Register

section Steps

variable {P G M : Type*} [DecidableEq G] [DecidableEq M]
variable (B : Register P G M)

/-- Enter a grant at a stage. -/
def put (g : G) (s : Stage) : Register P G M :=
  { B with stage := Function.update B.stage g (some s) }

/-- Enter a hand-over. -/
def enter (m : M) (v : Passage P G) : Register P G M :=
  { B with passage := Function.update B.passage m (some v) }

/-- End the grant that was prepared, if there is one. -/
def drop : Option G → Register P G M
  | none => B
  | some g => B.put g .ended

/-! ### Steps -/

/-- What may happen to grants and hand-overs. A hand-over that becomes ready is `enters`, and one
that is carried out or dropped is `leaves`. -/
inductive Step (enters leaves : Passage P G → Prop) : Register P G M → Register P G M → Prop
  /-- A grant that is active at once. -/
  | issue {B : Register P G M} {g : G} (hg : B.stage g = none) :
      Step enters leaves B (B.put g .active)
  /-- A grant ends. -/
  | finish {B : Register P G M} {g : G} {s : Stage} (hg : B.stage g = some s)
      (hs : s ≠ .prepared) : Step enters leaves B (B.put g .ended)
  /-- A hand-over is planned. -/
  | plan {B : Register P G M} {m : M} {v : Passage P G} (hm : B.passage m = none)
      (hv : v.progress = .planned) (ht : v.target = none) (hs : B.stage v.source ≠ none) :
      Step enters leaves B (B.enter m v)
  /-- A grant is prepared for a hand-over. -/
  | prepare {B : Register P G M} {m : M} {v : Passage P G} {g : G} {n : ℕ}
      (hm : B.passage m = some v) (hv : v.progress = .planned) (hg : B.stage g = none)
      (he : enters { v with target := some g, stamp := n, progress := .ready }) :
      Step enters leaves B
        ((B.put g .prepared).enter m { v with target := some g, stamp := n, progress := .ready })
  /-- A hand-over is carried out. -/
  | commit {B : Register P G M} {m : M} {v : Passage P G} {g : G} {n : ℕ}
      (hm : B.passage m = some v) (hv : v.progress = .ready) (ht : v.target = some g)
      (hs : B.stage v.source = some .active) (hl : leaves v) :
      Step enters leaves B
        (((B.put v.source .ended).put g .active).enter m { v with stamp := n, progress := .done })
  /-- Nothing is left to do. -/
  | complete {B : Register P G M} {m : M} {v : Passage P G} (hm : B.passage m = some v)
      (hv : v.progress = .done) :
      Step enters leaves B (B.enter m { v with progress := .completed })
  /-- A hand-over is dropped. -/
  | abort {B : Register P G M} {m : M} {v : Passage P G} (hm : B.passage m = some v)
      (hv : v.progress = .planned ∨ v.progress = .ready) (hl : leaves v) :
      Step enters leaves B ((B.drop v.target).enter m { v with progress := .aborted })

/-- A run of steps. -/
abbrev Steps (enters leaves : Passage P G → Prop) : Register P G M → Register P G M → Prop :=
  Relation.ReflTransGen (Step enters leaves)

/-! ### The invariant -/

/-- A hand-over that is ready has a prepared grant of its own; one that was carried out has ended
its source; one that was dropped has ended its target. -/
structure Orderly : Prop where
  known : ∀ m v, B.passage m = some v → v.progress ≠ .stray
  planned : ∀ m v, B.passage m = some v → v.progress = .planned → v.target = none
  ready : ∀ m v, B.passage m = some v → v.progress = .ready →
    ∃ g, v.target = some g ∧ B.stage g = some .prepared
  own : ∀ m m' v v' g, B.passage m = some v → B.passage m' = some v' → v.target = some g →
    v'.target = some g → m = m'
  source : ∀ m v, B.passage m = some v → B.stage v.source ≠ none
  target : ∀ m v g, B.passage m = some v → v.target = some g → B.stage g ≠ none
  settled : ∀ m v, B.passage m = some v → v.progress = .done ∨ v.progress = .completed →
    B.stage v.source = some .ended
  dropped : ∀ m v g, B.passage m = some v → v.progress = .aborted → v.target = some g →
    B.stage g = some .ended

end Steps

variable {P G M : Type*} {B B' : Register P G M} {g g' : G} {m m' : M} {v v' : Passage P G}
    {s s' : Stage}
variable {enters leaves : Passage P G → Prop}

@[simp]
theorem stage_put_self [DecidableEq G] : (B.put g s).stage g = some s := Function.update_self ..

theorem stage_put_of_ne [DecidableEq G] (h : g' ≠ g) : (B.put g s).stage g' = B.stage g' :=
  Function.update_of_ne h ..

/-- Entering a passage leaves the stages as they are. -/
@[simp]
theorem stage_enter [DecidableEq M] : (B.enter m v).stage = B.stage := rfl

/-- Setting a stage leaves the passages as they are. -/
@[simp]
theorem passage_put [DecidableEq G] : (B.put g s).passage = B.passage := rfl

@[simp]
theorem passage_enter_self [DecidableEq M] :
    (B.enter m v).passage m = some v := Function.update_self ..

theorem passage_enter_of_ne [DecidableEq M] (h : m' ≠ m) :
    (B.enter m v).passage m' = B.passage m' :=
  Function.update_of_ne h ..

/-- Dropping a grant leaves the passages as they are. -/
@[simp]
theorem passage_drop [DecidableEq G] (t : Option G) : (B.drop t).passage = B.passage := by
  cases t <;> rfl

/-- A grant with a stage keeps one. -/
theorem stage_put_ne_none [DecidableEq G] (h : B.stage g' ≠ none) :
    (B.put g s).stage g' ≠ none := by
  by_cases hg : g' = g
  · subst hg
    simp
  · rwa [stage_put_of_ne hg]

/-- Dropping a grant ends it, and no other. -/
theorem stage_drop [DecidableEq G] {t : Option G} :
    (∀ g, t = some g → (B.drop t).stage g = some .ended) ∧
      ∀ g, t ≠ some g → (B.drop t).stage g = B.stage g := by
  cases t with
  | none => exact ⟨nofun, fun _ _ => rfl⟩
  | some g =>
    refine ⟨?_, fun g' hg => stage_put_of_ne fun h => hg (by rw [h])⟩
    rintro g' ⟨⟩
    exact stage_put_self

/-! ### The invariant is kept -/

/-- Grants come forward. -/
theorem Orderly.restage (h : B.Orderly) (hp : B'.passage = B.passage)
    (hnone : ∀ g, B.stage g ≠ none → B'.stage g ≠ none)
    (hended : ∀ g, B.stage g = some .ended → B'.stage g = some .ended)
    (hprepared : ∀ g, B.stage g = some .prepared → B'.stage g = some .prepared) : B'.Orderly := by
  constructor <;> rw [hp]
  · exact h.known
  · exact h.planned
  · intro m v hm hv
    obtain ⟨g, ht, hg⟩ := h.ready m v hm hv
    exact ⟨g, ht, hprepared g hg⟩
  · exact h.own
  · exact fun m v hm => hnone _ (h.source m v hm)
  · exact fun m v g hm ht => hnone _ (h.target m v g hm ht)
  · exact fun m v hm hv => hended _ (h.settled m v hm hv)
  · exact fun m v g hm hv ht => hended _ (h.dropped m v g hm hv ht)

/-- A hand-over comes forward, and grants with it: its own prepared grant may change in any
way. -/
theorem Orderly.enter [DecidableEq M] (h : B.Orderly) (hp : B'.passage = B.passage)
    (hnone : ∀ g, B.stage g ≠ none → B'.stage g ≠ none)
    (hended : ∀ g, B.stage g = some .ended → B'.stage g = some .ended)
    (hprepared : ∀ g, B.stage g = some .prepared → B'.stage g = some .prepared ∨
      ∃ w, B.passage m = some w ∧ w.target = some g)
    (hknown : v.progress ≠ .stray) (hplanned : v.progress = .planned → v.target = none)
    (hready : v.progress = .ready → ∃ g, v.target = some g ∧ B'.stage g = some .prepared)
    (hown : ∀ g, v.target = some g → B.stage g = none ∨ ∃ w, B.passage m = some w ∧
      w.target = some g)
    (hsource : B'.stage v.source ≠ none) (htarget : ∀ g, v.target = some g → B'.stage g ≠ none)
    (hsettled : v.progress = .done ∨ v.progress = .completed → B'.stage v.source = some .ended)
    (hdropped : v.progress = .aborted → ∀ g, v.target = some g → B'.stage g = some .ended) :
    (B'.enter m v).Orderly := by
  have hcases : ∀ m' v', (B'.enter m v).passage m' = some v' →
      m' = m ∧ v' = v ∨ m' ≠ m ∧ B.passage m' = some v' := by
    intro m' v' hm'
    by_cases hne : m' = m
    · subst hne
      rw [passage_enter_self] at hm'
      exact .inl ⟨rfl, (Option.some.inj hm').symm⟩
    · rw [passage_enter_of_ne hne, hp] at hm'
      exact .inr ⟨hne, hm'⟩
  -- a grant prepared for another hand-over
  have hother : ∀ m' v' g, m' ≠ m → B.passage m' = some v' → v'.target = some g →
      v.target ≠ some g ∧ ¬ ∃ w, B.passage m = some w ∧ w.target = some g := by
    intro m' v' g hne hm' ht'
    have hno : ¬ ∃ w, B.passage m = some w ∧ w.target = some g := by
      rintro ⟨w, hw, hwt⟩
      exact hne (h.own m' m v' w g hm' hw ht' hwt)
    refine ⟨fun ht => ?_, hno⟩
    obtain hfresh | hsame := hown g ht
    · exact h.target m' v' g hm' ht' hfresh
    · exact hno hsame
  constructor
  · intro m' v' hm'
    obtain ⟨-, rfl⟩ | ⟨-, hm'⟩ := hcases m' v' hm'
    · exact hknown
    · exact h.known m' v' hm'
  · intro m' v' hm'
    obtain ⟨-, rfl⟩ | ⟨-, hm'⟩ := hcases m' v' hm'
    · exact hplanned
    · exact h.planned m' v' hm'
  · intro m' v' hm' hv'
    obtain ⟨-, rfl⟩ | ⟨hne, hm'⟩ := hcases m' v' hm'
    · exact hready hv'
    · obtain ⟨g, ht, hg⟩ := h.ready m' v' hm' hv'
      obtain hg' | hw := hprepared g hg
      · exact ⟨g, ht, hg'⟩
      · exact absurd hw (hother m' v' g hne hm' ht).2
  · intro m₁ m₂ v₁ v₂ g hm₁ hm₂ ht₁ ht₂
    obtain ⟨rfl, rfl⟩ | ⟨hne₁, hb₁⟩ := hcases m₁ v₁ hm₁
    · obtain ⟨rfl, -⟩ | ⟨hne₂, hb₂⟩ := hcases m₂ v₂ hm₂
      · rfl
      · exact absurd ht₁ (hother m₂ v₂ g hne₂ hb₂ ht₂).1
    · obtain ⟨rfl, rfl⟩ | ⟨hne₂, hb₂⟩ := hcases m₂ v₂ hm₂
      · exact absurd ht₂ (hother m₁ v₁ g hne₁ hb₁ ht₁).1
      · exact h.own m₁ m₂ v₁ v₂ g hb₁ hb₂ ht₁ ht₂
  · intro m' v' hm'
    obtain ⟨-, rfl⟩ | ⟨-, hm'⟩ := hcases m' v' hm'
    · exact hsource
    · exact hnone _ (h.source m' v' hm')
  · intro m' v' g hm' ht'
    obtain ⟨-, rfl⟩ | ⟨-, hm'⟩ := hcases m' v' hm'
    · exact htarget g ht'
    · exact hnone _ (h.target m' v' g hm' ht')
  · intro m' v' hm' hv'
    obtain ⟨-, rfl⟩ | ⟨-, hm'⟩ := hcases m' v' hm'
    · exact hsettled hv'
    · exact hended _ (h.settled m' v' hm' hv')
  · intro m' v' g hm' hv' ht'
    obtain ⟨-, rfl⟩ | ⟨-, hm'⟩ := hcases m' v' hm'
    · exact hdropped hv' g ht'
    · exact hended _ (h.dropped m' v' g hm' hv' ht')

/-- A step keeps the register orderly. -/
theorem Step.orderly [DecidableEq G] [DecidableEq M] (h : B.Orderly)
    (hs : Step enters leaves B B') : B'.Orderly := by
  cases hs with
  | @issue g hg =>
    have hne : ∀ g' s', B.stage g' = some s' → g' ≠ g := by
      rintro g' s' hg' rfl
      rw [hg] at hg'
      cases hg'
    exact h.restage rfl (fun _ => stage_put_ne_none)
      (fun g' hg' => (stage_put_of_ne (hne _ _ hg')).trans hg')
      fun g' hg' => (stage_put_of_ne (hne _ _ hg')).trans hg'
  | @finish g s hg hs =>
    refine h.restage rfl (fun _ => stage_put_ne_none) (fun g' hg' => ?_) fun g' hg' => ?_
    · by_cases hne : g' = g
      · subst hne
        exact stage_put_self
      · exact (stage_put_of_ne hne).trans hg'
    · have hne : g' ≠ g := by
        rintro rfl
        rw [hg] at hg'
        exact hs (Option.some.inj hg')
      exact (stage_put_of_ne hne).trans hg'
  | @plan m v hm hv ht hs =>
    refine h.enter rfl (fun _ hg => hg) (fun _ hg => hg) (fun _ hg => .inl hg) ?_
      (fun _ => ht) ?_ ?_
      hs ?_ ?_ ?_ <;> simp [hv, ht]
  | @prepare m v g n hm hv hg =>
    have hne : ∀ g' s', B.stage g' = some s' → g' ≠ g := by
      rintro g' s' hg' rfl
      rw [hg] at hg'
      cases hg'
    refine h.enter rfl (fun _ => stage_put_ne_none)
      (fun g' hg' => (stage_put_of_ne (hne _ _ hg')).trans hg')
      (fun g' hg' => .inl ((stage_put_of_ne (hne _ _ hg')).trans hg')) nofun nofun
      (fun _ => ⟨g, rfl, stage_put_self⟩) ?_ (stage_put_ne_none (h.source m v hm)) ?_ ?_ nofun
    · rintro g' ⟨⟩
      exact .inl hg
    · rintro g' ⟨⟩
      simp
    · simp
  | @commit m v g n hm hv ht hs =>
    obtain ⟨g', ht', hg⟩ := h.ready m v hm hv
    obtain rfl : g = g' := Option.some.inj (ht.symm.trans ht')
    -- the source is active and the target is prepared, so they differ
    have hne : v.source ≠ g := by
      intro hc
      rw [hc, hg] at hs
      cases hs
    have hstage : ∀ x, x ≠ v.source → x ≠ g →
        ((B.put v.source .ended).put g .active).stage x = B.stage x := by
      intro x h1 h2
      rw [stage_put_of_ne h2, stage_put_of_ne h1]
    have hsource : ((B.put v.source .ended).put g .active).stage v.source = some .ended := by
      rw [stage_put_of_ne hne, stage_put_self]
    refine h.enter rfl (fun _ hx => stage_put_ne_none (stage_put_ne_none hx)) (fun x hx => ?_)
      (fun x hx => ?_) nofun nofun nofun (fun x hx => .inr ⟨v, hm, hx⟩) ?_ ?_ (fun _ => hsource)
      nofun
    · have hxg : x ≠ g := by
        rintro rfl
        rw [hg] at hx
        cases hx
      by_cases hxs : x = v.source
      · rw [hxs]
        exact hsource
      · rw [hstage x hxs hxg]
        exact hx
    · have hxs : x ≠ v.source := by
        rintro rfl
        rw [hs] at hx
        cases hx
      by_cases hxg : x = g
      · exact .inr ⟨v, hm, hxg ▸ ht⟩
      · exact .inl ((hstage x hxs hxg).trans hx)
    · rw [hsource]
      simp
    · exact fun x hx => stage_put_ne_none (stage_put_ne_none (h.target m v x hm hx))
  | @complete m v hm hv =>
    refine h.enter rfl (fun _ hg => hg) (fun _ hg => hg) (fun _ hg => .inl hg) nofun nofun nofun
      (fun g hg => .inr ⟨v, hm, hg⟩) (h.source m v hm) (fun g hg => h.target m v g hm hg)
      (fun _ => h.settled m v hm (.inl hv)) nofun
  | @abort m v hm hv =>
    obtain ⟨hself, hother⟩ := stage_drop (B := B) (t := v.target)
    have hnone : ∀ x, B.stage x ≠ none → (B.drop v.target).stage x ≠ none := by
      intro x hx
      by_cases hxt : v.target = some x
      · rw [hself x hxt]
        simp
      · rw [hother x hxt]
        exact hx
    refine h.enter (passage_drop _) hnone (fun x hx => ?_) (fun x hx => ?_) nofun nofun nofun
      (fun g hg => .inr ⟨v, hm, hg⟩) (hnone _ (h.source m v hm))
      (fun g hg => hnone _ (h.target m v g hm hg)) nofun fun _ => hself
    · by_cases hxt : v.target = some x
      · exact hself x hxt
      · exact (hother x hxt).trans hx
    · by_cases hxt : v.target = some x
      · exact .inr ⟨v, hm, hxt⟩
      · exact .inl ((hother x hxt).trans hx)

/-- A run keeps the register orderly. -/
theorem Steps.orderly [DecidableEq G] [DecidableEq M] (h : B.Orderly)
    (hs : Steps enters leaves B B') : B'.Orderly := by
  induction hs with
  | refl => exact h
  | tail _ hstep ih => exact hstep.orderly ih

/-! ### Nothing goes back -/

section Runs

variable [DecidableEq G] [DecidableEq M]

/-- A grant that is there stays, and does not go back. -/
theorem Step.stage (h : B.Orderly) (hs : Step enters leaves B B') (hg : B.stage g = some s) :
    ∃ s', B'.stage g = some s' ∧ s.rank ≤ s'.rank := by
  have hput : ∀ (C : Register P G M) x t, C.stage g = some s → (x = g → s.rank ≤ t.rank) →
      ∃ s', (C.put x t).stage g = some s' ∧ s.rank ≤ s'.rank := by
    intro C x t hC ht
    by_cases hx : x = g
    · subst hx
      exact ⟨t, stage_put_self, ht rfl⟩
    · exact ⟨s, (stage_put_of_ne (Ne.symm hx)).trans hC, Nat.le_refl _⟩
  -- nothing is beyond `ended`
  have htop : ∀ s : Stage, s.rank ≤ Stage.ended.rank := by
    intro s
    cases s <;> decide
  cases hs with
  | @issue x hx =>
    refine hput B x .active hg ?_
    rintro rfl
    rw [hx] at hg
    cases hg
  | @finish x s hx => exact hput B x .ended hg fun _ => htop _
  | plan => exact ⟨s, hg, Nat.le_refl _⟩
  | @prepare m v x n hm hv hx =>
    refine hput B x .prepared hg ?_
    rintro rfl
    rw [hx] at hg
    cases hg
  | @commit m v x n hm hv ht hs =>
    obtain ⟨x', ht', hx⟩ := h.ready m v hm hv
    obtain rfl : x = x' := Option.some.inj (ht.symm.trans ht')
    by_cases hgx : x = g
    · subst hgx
      rw [hx] at hg
      cases hg
      exact ⟨.active, stage_put_self, Nat.zero_le _⟩
    · obtain ⟨s', hs', hle⟩ := hput B v.source .ended hg fun _ => htop _
      exact ⟨s', (stage_put_of_ne (Ne.symm hgx)).trans hs', hle⟩
  | complete => exact ⟨s, hg, Nat.le_refl _⟩
  | @abort m v hm hv =>
    change ∃ s', (B.drop v.target).stage g = some s' ∧ _
    cases v.target with
    | none => exact ⟨s, hg, Nat.le_refl _⟩
    | some x => exact hput B x .ended hg fun _ => htop _

/-- Along a run no grant goes back to an earlier stage. -/
theorem Steps.stage (h : B.Orderly) (hs : Steps enters leaves B B') (hg : B.stage g = some s) :
    ∃ s', B'.stage g = some s' ∧ s.rank ≤ s'.rank := by
  induction hs with
  | refl => exact ⟨s, hg, Nat.le_refl _⟩
  | tail hs hstep ih =>
    obtain ⟨s₁, hs₁, hle₁⟩ := ih
    obtain ⟨s₂, hs₂, hle₂⟩ := hstep.stage (Steps.orderly h hs) hs₁
    exact ⟨s₂, hs₂, Nat.le_trans hle₁ hle₂⟩

/-- A hand-over that is there stays, and does not go back. -/
theorem Step.passage (h : B.Orderly) (hs : Step enters leaves B B') (hm : B.passage m = some v) :
    ∃ v', B'.passage m = some v' ∧ v.Before v' := by
  have henter : ∀ (C : Register P G M) m' v₁ v₂, C.passage = B.passage →
      B.passage m' = some v₁ → v₁.Before v₂ →
      ∃ v', (C.enter m' v₂).passage m = some v' ∧ v.Before v' := by
    intro C m' v₁ v₂ hC hm' hb
    by_cases hne : m = m'
    · subst hne
      rw [hm] at hm'
      cases hm'
      exact ⟨v₂, passage_enter_self, hb⟩
    · refine ⟨v, ?_, .refl v⟩
      rw [passage_enter_of_ne hne, hC, hm]
  cases hs with
  | issue => exact ⟨v, hm, .refl v⟩
  | finish => exact ⟨v, hm, .refl v⟩
  | @plan m' v' hm' =>
    have hne : m ≠ m' := by
      rintro rfl
      rw [hm] at hm'
      cases hm'
    exact ⟨v, (passage_enter_of_ne hne).trans hm, .refl v⟩
  | @prepare m' w g n hm' hv =>
    refine henter _ m' w _ rfl hm' ⟨rfl, rfl, fun g' hg' => ?_, hv ▸ .ready⟩
    rw [h.planned m' w hm' hv] at hg'
    cases hg'
  | @commit m' w g n hm' hv =>
    exact henter _ m' w _ rfl hm' ⟨rfl, rfl, fun _ hg => hg, .done (.inr hv)⟩
  | @complete m' w hm' hv =>
    exact henter _ m' w _ rfl hm'
      ⟨rfl, rfl, fun _ hg => hg, .completed (by simp [hv]) (by simp [hv])⟩
  | @abort m' w hm' hv =>
    exact henter _ m' w _ (passage_drop _) hm' ⟨rfl, rfl, fun _ hg => hg, .aborted hv⟩

/-- Along a run no passage goes back. -/
theorem Steps.passage (h : B.Orderly) (hs : Steps enters leaves B B')
    (hm : B.passage m = some v) : ∃ v', B'.passage m = some v' ∧ v.Before v' := by
  induction hs with
  | refl => exact ⟨v, hm, .refl v⟩
  | tail hs hstep ih =>
    obtain ⟨v₁, hv₁, hb₁⟩ := ih
    obtain ⟨v₂, hv₂, hb₂⟩ := hstep.passage (Steps.orderly h hs) hv₁
    exact ⟨v₂, hv₂, hb₁.trans hb₂⟩

/-! ### Becoming ready, and ceasing to be -/

/-- A hand-over that is ready was ready before, or it is one that became so. -/
theorem Step.ready_inv (hs : Step enters leaves B B') (hm : B'.passage m = some v)
    (hv : v.progress = .ready) : B.passage m = some v ∨ enters v := by
  have henter : ∀ (C : Register P G M) m' v', C.passage = B.passage → v'.progress ≠ .ready →
      (C.enter m' v').passage m = some v → B.passage m = some v := by
    intro C m' v' hC hv' hC'
    by_cases hne : m = m'
    · subst hne
      rw [passage_enter_self] at hC'
      cases hC'
      exact absurd hv hv'
    · rwa [passage_enter_of_ne hne, hC] at hC'
  cases hs with
  | issue => exact .inl hm
  | finish => exact .inl hm
  | @plan m' v' _ hv' => exact .inl (henter B m' v' rfl (by simp [hv']) hm)
  | @prepare m' w g n hm' hw hg he =>
    by_cases hne : m = m'
    · subst hne
      rw [passage_enter_self] at hm
      cases hm
      exact .inr he
    · exact .inl ((passage_enter_of_ne hne).symm.trans hm)
  | @commit m' w =>
    refine .inl (henter _ m' _ rfl ?_ hm)
    nofun
  | @complete m' w =>
    refine .inl (henter _ m' _ rfl ?_ hm)
    nofun
  | @abort m' w =>
    refine .inl (henter _ m' _ (passage_drop _) ?_ hm)
    nofun

/-- A passage that is ready after a run was ready before, or it entered. -/
theorem Steps.ready_inv (hs : Steps enters leaves B B') (hm : B'.passage m = some v)
    (hv : v.progress = .ready) : B.passage m = some v ∨ enters v := by
  induction hs with
  | refl => exact .inl hm
  | tail _ hstep ih =>
    obtain h | h := hstep.ready_inv hm hv
    · exact ih h
    · exact .inr h

/-- A hand-over that was ready is ready, or it is one that ceased to be. -/
theorem Step.ready (hs : Step enters leaves B B') (hm : B.passage m = some v)
    (hv : v.progress = .ready) : B'.passage m = some v ∨ leaves v := by
  have henter : ∀ (C : Register P G M) m' v₁ v₂, C.passage = B.passage →
      B.passage m' = some v₁ → leaves v₁ ∨ v₁.progress ≠ .ready →
      (C.enter m' v₂).passage m = some v ∨ leaves v := by
    intro C m' v₁ v₂ hC hm' hl
    by_cases hne : m = m'
    · subst hne
      rw [hm] at hm'
      cases hm'
      exact .inr (hl.resolve_right fun h => h hv)
    · exact .inl (by rw [passage_enter_of_ne hne, hC, hm])
  cases hs with
  | issue => exact .inl hm
  | finish => exact .inl hm
  | @plan m' v' hm' =>
    have hne : m ≠ m' := by
      rintro rfl
      rw [hm] at hm'
      cases hm'
    exact .inl ((passage_enter_of_ne hne).trans hm)
  | @prepare m' w g n hm' hw => exact henter _ m' w _ rfl hm' (.inr (by simp [hw]))
  | @commit m' w g n hm' hw ht hs hl => exact henter _ m' w _ rfl hm' (.inl hl)
  | @complete m' w hm' hw => exact henter _ m' w _ rfl hm' (.inr (by simp [hw]))
  | @abort m' w hm' hw hl => exact henter _ m' w _ (passage_drop _) hm' (.inl hl)

/-- A passage that is ready stays so along a run, or it may leave. -/
theorem Steps.ready (hs : Steps enters leaves B B') (hm : B.passage m = some v)
    (hv : v.progress = .ready) : B'.passage m = some v ∨ leaves v := by
  induction hs with
  | refl => exact .inl hm
  | tail _ hstep ih =>
    obtain h | h := ih
    · exact hstep.ready h hv
    · exact .inr h

/-- A grant that was there is prepared only if it was. -/
theorem Steps.prepared_inv (h : B.Orderly) (hs : Steps enters leaves B B')
    (hg : B'.stage g = some .prepared) : B.stage g = some .prepared ∨ B.stage g = none := by
  obtain hnone | ⟨s, hs'⟩ := Option.eq_none_or_eq_some (B.stage g)
  · exact .inr hnone
  · obtain ⟨s₁, hs₁, hle⟩ := hs.stage h hs'
    rw [hg] at hs₁
    cases hs₁
    cases s with
    | prepared => exact .inl hs'
    | active => exact absurd hle (by decide)
    | ended => exact absurd hle (by decide)

end Runs

end Register

end Handover
