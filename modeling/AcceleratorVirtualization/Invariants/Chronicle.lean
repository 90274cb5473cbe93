import AcceleratorVirtualization.Invariants.Histories
import AcceleratorVirtualization.Invariants.RecordOperations

/-!
# What is kept beside a run

Some claims about a run are about the calls that were made in it. What is kept of these calls is
kept twice: for the process, and for the image of its store. A process that starts over its store
goes on with what belongs to the image. If every event keeps a relation between what is kept and the
state, then the relation holds after a run.
-/

namespace AcceleratorVirtualization

open Refusal VirtualizationState

namespace Impl

/-- Whether the image follows the state. -/
def keepsImage (im : Impl Disk) : Bool := im.options.persist && im.store.any (·.opened)

variable {im s im' : Impl Disk} {r : Impl Disk × Except Failure Unit} {clock : Clock} {op : Op}

/-- A commit that does not fail leaves the state it was made of, and one that fails leaves the one
before. -/
theorem Written.state_cases (hw : Written im s im' r) :
    ((∀ status, r.2 ≠ .error (.persistence status)) ∧ im'.state.Alike True r.1.state) ∨
      (∃ status, r.2 = .error (.persistence status)) ∧ im.state.Alike False r.1.state := by
  obtain ⟨store, hp, hcommit⟩ | ⟨store, status, hp, hcommit⟩ := commit_cases im'
  · refine .inl ⟨fun status hr => ?_, ?_⟩
    · have hfailed := (hw.failed status).mp hr
      rw [hcommit] at hfailed
      cases hfailed
    · rw [hw.committed, hcommit]
      exact alike_extended im'
  · refine .inr ⟨⟨_, (hw.failed _).mpr (by rw [hcommit])⟩, ?_⟩
    rw [hw.committed, hcommit]
    have hundo := hw.ready.undoes store status
    obtain ⟨-, hepoch, hpolicy, hgeneration, haccounting, -⟩ := hundo.scalars_rollback
    exact hw.displaced.alike.symm.trans (.symm (.of_entities (funext hundo.entities_rollback)
      hepoch hpolicy hgeneration (congrArg _ haccounting)))

/-- Only a store that is open and written to changes. -/
theorem Written.store_cases (hw : Written im s im' r) :
    r.1.store = im.store ∨ im.keepsImage = true := by
  have hstore : im'.extended.store = im.store := hw.ready.store.trans hw.store
  have hoptions : im'.extended.options = im.options := hw.ready.options.trans hw.options
  rw [hw.committed]
  obtain ⟨hp', -⟩ | ⟨d, hd, hpersist, hopen, -⟩ | ⟨status', hp'⟩ :=
    persistChanges_cases im'.extended
  · obtain ⟨store, hp, hcommit⟩ | ⟨store, status, hp, hcommit⟩ := commit_cases im'
    · obtain rfl : im'.extended.store = store := congrArg Prod.fst (hp'.symm.trans hp)
      rw [hcommit]
      exact .inl hstore
    · rw [hp'] at hp
      cases hp
  · refine .inr ?_
    rw [hstore] at hd
    rw [hoptions] at hpersist
    simp [keepsImage, hd, hpersist, hopen]
  · obtain ⟨store, hp, hcommit⟩ | ⟨store, status, hp, hcommit⟩ := commit_cases im'
    · rw [hp'] at hp
      cases hp
    · obtain rfl : im'.extended.store = store := congrArg Prod.fst (hp'.symm.trans hp)
      rw [hcommit]
      exact .inl hstore

theorem store_exec (hw : im.state.WellKeyed) :
    (im.exec clock op).1.store = im.store ∨ im.keepsImage = true := by
  have hdoes : Does (fun _ => True) im clock op := ⟨trivial, fun _ _ => trivial, fun _ => trivial⟩
  obtain hr | ⟨s, im', hwritten, -⟩ := exec_cases (fun _ _ _ _ => trivial) hw hdoes
  · exact .inl hr.store
  · exact hwritten.store_cases

/-- No operation opens or closes the store. -/
theorem keepsImage_exec (hw : im.state.WellKeyed) :
    (im.exec clock op).1.keepsImage = im.keepsImage := by
  have hsame : ∀ i : Impl Disk, i.store = im.store → i.options = im.options →
      i.keepsImage = im.keepsImage := by
    intro i hstore hoptions
    rw [keepsImage, keepsImage, hstore, hoptions]
  have hdoes : Does (fun _ => True) im clock op := ⟨trivial, fun _ _ => trivial, fun _ => trivial⟩
  obtain hr | ⟨s, im', hwritten, -⟩ := exec_cases (fun _ _ _ _ => trivial) hw hdoes
  · exact hsame _ hr.store hr.options
  · obtain ⟨hoptions, ⟨-, -, ⟨hstore, -⟩ | ⟨d, image, hd, hopen, hstore⟩⟩ | ⟨-, hstore⟩⟩ :=
      hwritten.cases
    · exact hsame _ hstore hoptions
    · simp [keepsImage, hoptions, hstore, hd]
    · exact hsame _ hstore hoptions

/-! ### One operation -/

section View

variable {β : Type} {f : VirtualizationState → β}
variable (hf : ∀ (T : Prop) (s t : VirtualizationState), s.Alike T t → f t = f s)

include hf

/-- An operation leaves of a view what its body makes of it and answers what its body does; if the
store does not take the change set, it fails and leaves the view. -/
theorem view_operation {α : Type} {b : Body Disk α} (hw : im.state.WellKeyed)
    (hb : body clock (im.resolve op) = some b.forget) :
    (∃ accepted, (b im.beginOp).2 = .ok accepted ∧
      (im.operation clock b).2 = .ok accepted.result ∧
      f (im.operation clock b).1.state = f (b im.beginOp).1.state) ∨
    (∃ failure, (im.operation clock b).2 = .error failure) ∧
      (f (im.operation clock b).1.state = f im.state ∨
        (∃ refusal, (b im.beginOp).2 = .error refusal) ∧
          f (im.operation clock b).1.state = f (b im.beginOp).1.state) := by
  have hq : VirtualizationState.Respects True (fun t => f t = f (b im.beginOp).1.state) :=
    fun s t h ht => (hf True s t h).trans ht
  obtain ⟨s, im', hwritten, hQ, -⟩ := commits_operation hq hw hb rfl
  have hsame : (im.operation clock b).1 = (im.operation clock b.forget).1 :=
    congrArg Prod.fst (operation_forget clock b)
  have hanswer : (im.operation clock b.forget).2 = (im.operation clock b).2.map fun _ => () :=
    (congrArg Prod.snd (operation_forget clock b)).symm
  have hstate := hwritten.state_cases
  rw [← hsame, hanswer] at hstate
  obtain ⟨hno, halike⟩ | ⟨⟨status, hfailed⟩, halike⟩ := hstate
  · have hview : f (im.operation clock b).1.state = f (b im.beginOp).1.state :=
      (hf True _ _ halike).trans hQ
    rw [operation_eq] at hno ⊢
    cases hc : ((b im.beginOp).1.settle clock (recorded (b im.beginOp).2).1
      (recorded (b im.beginOp).2).2.1 (recorded (b im.beginOp).2).2.2).commit.2 with
    | error status =>
      refine absurd ?_ (hno status)
      simp only [hc, answered, Except.map]
    | ok u =>
      rw [operation_eq] at hview
      simp only [hc, answered] at hview ⊢
      cases hbody : (b im.beginOp).2 with
      | ok accepted => exact .inl ⟨accepted, rfl, rfl, by rw [hbody] at hview; exact hview⟩
      | error refusal =>
        exact .inr ⟨⟨_, rfl⟩, .inr ⟨⟨refusal, rfl⟩, by rw [hbody] at hview; exact hview⟩⟩
  · refine .inr ⟨?_, (.inl (hf False _ _ halike))⟩
    cases hr : (im.operation clock b).2 with
    | ok a =>
      rw [hr] at hfailed
      cases hfailed
    | error failure => exact ⟨failure, rfl⟩

/-- The same for an operation that checks before it acts. -/
theorem view_checked_operation {π α : Type} {context : Impl Disk → OpContext} {kind : AuditKind}
    {check : Impl Disk → Except Status π} {act : π → Body Disk α} (hw : im.state.WellKeyed)
    (hb : body clock (im.resolve op) =
      some (Body.forget (checked (fun im => orRefuse (context im) kind (check im)) act))) :
    let r := im.operation clock (checked (fun im => orRefuse (context im) kind (check im)) act)
    (∃ plan accepted, check im.beginOp = .ok plan ∧ (act plan im.beginOp).2 = .ok accepted ∧
      r.2 = .ok accepted.result ∧ f r.1.state = f (act plan im.beginOp).1.state) ∨
    (∃ failure, r.2 = .error failure) ∧
      (f r.1.state = f im.state ∨ ∃ plan refusal, check im.beginOp = .ok plan ∧
        (act plan im.beginOp).2 = .error refusal ∧
        f r.1.state = f (act plan im.beginOp).1.state) := by
  intro r
  have hr := @view_operation _ clock op _ _ hf _ _ hw hb
  cases hc : check im.beginOp with
  | error status =>
    have hrun : checked (fun im => orRefuse (context im) kind (check im)) act im.beginOp =
        (im.beginOp, .error ⟨context im.beginOp, status, kind⟩) := by
      simp only [checked, orRefuse, hc, Refusal.mapError_error]
    rw [hrun] at hr
    obtain ⟨accepted, hacc, -⟩ | ⟨hfailed, hd⟩ := hr
    · cases hacc
    · exact .inr ⟨hfailed, .inl (hd.elim id fun h => h.2)⟩
  | ok plan =>
    have hrun : checked (fun im => orRefuse (context im) kind (check im)) act im.beginOp =
        act plan im.beginOp := by
      simp only [checked, orRefuse, hc, Refusal.mapError_ok]
    rw [hrun] at hr
    obtain ⟨accepted, hacc, hok, hd⟩ | ⟨hfailed, hd⟩ := hr
    · exact .inl ⟨plan, accepted, rfl, hacc, hok, hd⟩
    · refine .inr ⟨hfailed, hd.imp_right ?_⟩
      rintro ⟨⟨refusal, hrefused⟩, h⟩
      exact ⟨plan, refusal, rfl, hrefused, h⟩

end View

end Impl

/-! ### What is kept -/

/-- What is kept for the process, and for the image of its store. -/
structure Beside (G : Type) where
  live : G
  stored : G

namespace Beside

variable {G : Type}

/-- What is kept after an event: of an operation what `hear` makes of it, and nothing in a new
process. -/
def after (hear : G → Impl Disk → Clock → Op → G) (blank : G) (h : Beside G) (im : Impl Disk) :
    Event → Beside G
  | .op op clock answer =>
    let live := hear h.live (im.answering answer) clock op
    { live, stored := if im.keepsImage then live else h.stored }
  | .start _ =>
    if im.running then h
    else
      let live := match im.store with
        | none => h.live
        | some d => if d.image.isSome then h.stored else blank
      { live, stored := live }
  | .shutdown _ => if im.running then { h with stored := h.live } else h
  | .compact => if im.store.any (·.opened) then { h with stored := h.live } else h
  | .boot _ => { h with live := blank }

/-- What is kept after a run. -/
def along (hear : G → Impl Disk → Clock → Op → G) (blank : G) (h : Beside G) (im : Impl Disk) :
    List Event → Beside G
  | [] => h
  | event :: events =>
    match im.step event with
    | some im' => (h.after hear blank im event).along hear blank im' events
    | none => h

end Beside

/-- A relation between what is kept and a state: it does not depend on the windows of the state, it
holds in the beginning, and an event keeps it. -/
structure Recounts {G : Type} (hear : G → Impl Disk → Clock → Op → G) (blank : G)
    (F : G → VirtualizationState → Prop) (im : Impl Disk) (event : Event) : Prop where
  respects : ∀ (T : Prop) g, Respects T (F g)
  empty : F blank {}
  op : ∀ op clock answer, event = .op op clock answer → ∀ g, F g im.state →
    F (hear g (im.answering answer) clock op) ((im.answering answer).exec clock op).1.state
  classified : ∀ g (i : Impl Disk) now, F g i.state → F g (i.classified now).1.state
  start : ∀ g (i : Impl Disk) clock recovered, F g i.state → F g (i.startBody clock recovered).state
  shutdown : ∀ g (i : Impl Disk) clock, F g i.state → F g (i.shutdownBody clock).state

/-- The state is related to what is kept for the process, and the image to what is kept for it. -/
structure Recounted {G : Type} (F : G → VirtualizationState → Prop) (Q : VirtualizationState → Prop)
    (h : Beside G) (im : Impl Disk) : Prop where
  kept : Impl.Kept False Q im
  live : F h.live im.state
  stored : ∀ d image, im.store = some d → d.image = some image → F h.stored image

namespace Recounted

open Impl

variable {G : Type} {hear : G → Impl Disk → Clock → Op → G} {blank g : G}
variable {F : G → VirtualizationState → Prop} {Q : VirtualizationState → Prop} {h : Beside G}
variable {im im' : Impl Disk} {event : Event} {clock : Clock} {op : Op}

/-- What has a property in the state and in the image is related to one thing kept for both. -/
theorem of_kept (hk : Kept False Q im) (hf : Kept False (F g) im) :
    Recounted F Q { live := g, stored := g } im :=
  ⟨hk, hf.state.holds, fun d image hd himage => (hf.image d image hd himage).holds⟩

theorem exec {answer : Check} (hh : Recounted F Q h im)
    (hc : Recounts hear blank F im (.op op clock answer)) (hk : Kept False Q im')
    (hs : im.step (.op op clock answer) = some im') :
    Recounted F Q (h.after hear blank im (.op op clock answer)) im' := by
  cases hs
  have hw : (im.answering answer).state.WellKeyed := hh.kept.state.wellKeyed
  have hlive := hc.op op clock answer rfl h.live hh.live
  refine ⟨hk, hlive, fun d image hd himage => ?_⟩
  simp only [Beside.after]
  have hanswering : (im.answering answer).keepsImage = im.keepsImage := by
    unfold keepsImage answering
    cases im.store <;> rfl
  split
  · -- the image agrees with the state
    rename_i hon
    rw [← hanswering, ← @keepsImage_exec _ clock op hw] at hon
    simp only [keepsImage, hd, Option.any_some, Bool.and_eq_true] at hon
    obtain ⟨image', himage', hagrees⟩ := hk.written d hd hon.2 hon.1
    obtain rfl := Option.some.inj (himage.symm.trans himage')
    exact hc.respects _ _ hagrees.alike.symm hlive
  · rename_i hoff
    obtain hstore | hon := @store_exec _ clock op hw
    · rw [hstore] at hd
      obtain ⟨d', hd', rfl⟩ := Option.map_eq_some_iff.mp hd
      exact hh.stored d' image hd' himage
    · exact absurd (hanswering ▸ hon) hoff

theorem start (hh : Recounted F Q h im) (hc : Recounts hear blank F im (.start clock))
    (hk : Kept False Q im') (hs : im.step (.start clock) = some im') :
    Recounted F Q (h.after hear blank im (.start clock)) im' := by
  simp only [step] at hs
  split at hs
  · cases hs
    rename_i hstart
    obtain ⟨hrunning, rfl⟩ | ⟨hrunning, base, recovered, hcommitted, -, hbase⟩ :=
      start_cases hstart
    · have hr : im.running = true := hrunning
      simp only [Beside.after, hr, if_true]
      refine ⟨hk, hh.live, fun d image hd himage => ?_⟩
      obtain ⟨d', hd', rfl⟩ := Option.map_eq_some_iff.mp hd
      exact hh.stored d' image hd' himage
    have hr : im.running = false := hrunning
    simp only [Beside.after, hr, Bool.false_eq_true, if_false]
    obtain ⟨hkeyed, hfollows⟩ : base.state.Sound (F (match im.store with
        | none => h.live
        | some d => if d.image.isSome then h.stored else blank)) := by
      obtain ⟨-, ⟨hstate, hnone⟩ | ⟨hempty, d, hd, himage⟩⟩ | ⟨-, d, hd, himage, -⟩ := hbase
      · rw [hstate, Option.map_eq_none_iff.mp hnone]
        exact ⟨hh.kept.state.wellKeyed, hh.live⟩
      · obtain ⟨d', hd', rfl⟩ := Option.map_eq_some_iff.mp hd
        have hnone : d'.image.isSome = false := by rw [show d'.image = none from himage]; rfl
        rw [hempty, hd']
        simp only [hnone, Bool.false_eq_true, if_false]
        exact ⟨wellKeyed_empty, hc.empty⟩
      · obtain ⟨d', hd', rfl⟩ := Option.map_eq_some_iff.mp hd
        have himage' : d'.image = some base.state := himage
        rw [hd']
        simp only [himage', Option.isSome_some, if_true]
        exact ⟨(hh.kept.image d' _ hd' himage').wellKeyed, hh.stored d' _ hd' himage'⟩
    refine of_kept hk (Kept.startCommitted (hc.respects True _) (fun i hi => ?_)
      ⟨wellKeyed_startBody hkeyed clock recovered, hc.start _ base clock recovered hfollows⟩
      hcommitted)
    exact hc.classified _ i clock.now hi.holds
  · cases hs

theorem shutdown (hh : Recounted F Q h im) (hc : Recounts hear blank F im (.shutdown clock))
    (hk : Kept False Q im') (hs : im.step (.shutdown clock) = some im') :
    Recounted F Q (h.after hear blank im (.shutdown clock)) im' := by
  simp only [step] at hs
  split at hs
  · cases hs
    rename_i hstop
    obtain ⟨hidle, rfl⟩ | ⟨hrunning, im1, im2, hcommit, hclose, rfl⟩ := shutdown_cases hstop
    · have hr : im.running = false := hidle
      simp only [Beside.after, hr, Bool.false_eq_true, if_false]
      refine ⟨hk, hh.live, fun d image hd himage => ?_⟩
      obtain ⟨d', hd', rfl⟩ := Option.map_eq_some_iff.mp hd
      exact hh.stored d' image hd' himage
    have hr : im.running = true := hrunning
    simp only [Beside.after, hr, if_true]
    have hkeyed : (im.answering (.ok ())).beginOp.state.WellKeyed := hh.kept.state.wellKeyed
    have hlive : F h.live (im.answering (.ok ())).beginOp.state := hh.live
    have h1 : im1.state.Sound (F h.live) := Sound.commit (hc.respects True _)
      ⟨wellKeyed_shutdownBody hkeyed clock, hc.shutdown _ _ clock hlive⟩ hcommit
    have h2 := Kept.closed (T := False) h1 hclose
    exact of_kept hk ⟨h2.state, h2.image, h2.written⟩
  · cases hs

theorem compact (hh : Recounted F Q h im) :
    Recounted F Q (h.after hear blank im .compact) im.compact.1 := by
  have hk : Kept False Q im.compact.1 := hh.kept.compact
  simp only [Beside.after]
  cases hd : im.store with
  | none =>
    have hsame : im.compact.1 = im := by
      unfold Impl.compact compactStore
      rw [hd]
    rw [hsame]
    exact ⟨hh.kept, hh.live, fun d image hd' => by rw [hd] at hd'; cases hd'⟩
  | some d =>
    cases hopen : d.opened with
    | true =>
      simp only [Option.any_some, hopen, if_true]
      refine of_kept hk (Kept.compacted ⟨hh.kept.state.wellKeyed, hh.live⟩ ?_)
      unfold Impl.compact compactStore
      simp only [hd, DurableStore.compact, hopen, if_true]
    | false =>
      have hsame : im.compact.1 = { im with store := some d } := by
        unfold Impl.compact compactStore
        simp only [hd, DurableStore.compact, hopen, Bool.false_eq_true, if_false]
      simp only [Option.any_some, hopen, Bool.false_eq_true, if_false]
      rw [hsame] at hk ⊢
      exact ⟨hk, hh.live, fun d' image hd' => hh.stored d' image (hd.trans hd')⟩

/-- An event that keeps the relation, and the property beside it. -/
theorem step (hi : Invariant False Q) (hh : Recounted F Q h im)
    (hc : Recounts hear blank F im event) (hkeeps : Keeps False Q im event)
    (hs : im.step event = some im') : Recounted F Q (h.after hear blank im event) im' := by
  have hk := hh.kept.step hi hkeeps hs
  cases event with
  | op op clock answer => exact hh.exec hc hk hs
  | start clock => exact hh.start hc hk hs
  | shutdown clock => exact hh.shutdown hc hk hs
  | compact =>
    cases hs
    exact hh.compact
  | boot options =>
    cases hs
    refine ⟨hk, hc.empty, fun d image hd himage => ?_⟩
    obtain ⟨d', hd', rfl⟩ := Option.map_eq_some_iff.mp hd
    exact hh.stored d' image hd' himage

/-- After a run whose events all keep the relation, it holds. -/
theorem run {c : Impl Disk → Event → Bool} (hi : Invariant False Q)
    (hkeeps : ∀ im event, Kept False Q im → c im event = true → Keeps False Q im event)
    (hrecounts : ∀ im event, Kept False Q im → c im event = true → Recounts hear blank F im event)
    {events : List Event} (hh : Recounted F Q h im) (hr : im.run events = some im')
    (ht : im.throughout c events = true) : Recounted F Q (h.along hear blank im events) im' := by
  induction events generalizing im h with
  | nil =>
    cases hr
    exact hh
  | cons event events ih =>
    simp only [Impl.run, List.foldlM_cons, Option.bind_eq_bind, Option.bind_eq_some_iff] at hr
    obtain ⟨im1, hstep, hrest⟩ := hr
    simp only [throughout, hstep, Bool.and_eq_true] at ht
    simp only [Beside.along, hstep]
    exact ih (hh.step hi (hrecounts im event hh.kept ht.1) (hkeeps im event hh.kept ht.1) hstep)
      hrest ht.2

theorem initial (hi : Invariant False Q) (hempty : F blank {}) (options : RuntimeOptions)
    (stored : Bool) : Recounted F Q { live := blank, stored := blank }
      (Impl.initial options stored) := by
  refine ⟨kept_initial hi options stored, hempty, fun d image hd himage => ?_⟩
  unfold Impl.initial at hd
  split at hd <;> cases hd
  cases himage

end Recounted

end AcceleratorVirtualization
