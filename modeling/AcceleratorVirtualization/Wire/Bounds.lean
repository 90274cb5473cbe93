import AcceleratorVirtualization.Wire.Replay

/-!
# Bounds of the decoders

What a decoder does on the way to its answer: which bytes it looks at, for how many items it makes
room, and how deep it is nested when a list is done. All of it follows from how the decoder is put
together from the methods of `Decoder`, and so do the bounds: one case for every way of putting
decoders together.
-/

namespace AcceleratorVirtualization

open Enumeration (value ofValue)
open Reader

/-! ### Events -/

/-- Something a decoder does beside answering. -/
inductive DecoderEvent
  /-- The bytes up to a position are looked at, where so many are left. -/
  | read (upto left : ℕ)
  /-- Room is made for so many items, where so many bytes are left. -/
  | reserve (items left : ℕ)
  /-- A list is done; it was begun at a depth and leaves one. -/
  | done (before after : ℕ)
  deriving DecidableEq

/-- Nothing is looked at behind the input, room is made for no more items than there are bytes left,
and a list leaves the depth that it found. -/
def DecoderEvent.Safe : DecoderEvent → Prop
  | read upto left => upto ≤ left
  | reserve items left => items ≤ left
  | done before after => after = before

/-- What is done after a reader went through. -/
def afterwards {α β : Type} (r : Decode α) (i : Decoder) (next : α → Decoder → List β) : List β :=
  match r.run i with
  | .ok (a, j) => next a j
  | .error _ => []

/-- What happens after a reader that accepts. -/
theorem mem_afterwards {α β : Type} {r : Decode α} {i : Decoder} {next : α → Decoder → List β}
    {b : β} : b ∈ afterwards r i next ↔ ∃ a j, r.run i = .ok (a, j) ∧ b ∈ next a j := by
  unfold afterwards
  cases hr : r.run i with
  | error status => simp
  | ok p => simp [Prod.ext_iff]

/-! ### How decoders are put together -/

/-- A decoder that is put together from the methods of `Decoder`. Lists are begun and left in one
place only. -/
class inductive Built : {α : Type} → Decode α → Type 1
  | pure {α : Type} (a : α) : Built (Pure.pure a)
  | refuse {α : Type} (status : Status) : Built (throw status : Decode α)
  | stop {α β : Type} (status : Status) (k : α → Decode β) : Built (throw status >>= k)
  | context : Built (get : Decode Decoder)
  | take (count : ℕ) : Built (Decoder.take count)
  | bind {α β : Type} {r : Decode α} {k : α → Decode β} (first : Built r)
      (next : ∀ a, Built (k a)) : Built (r >>= k)
  | branch {α : Type} {c : Prop} [inst : Decidable c] {r r' : Decode α} (yes : Built r)
      (no : Built r') : Built (if c then r else r')
  | choice {α β : Type} {o : Option α} {r : Decode β} {k : α → Decode β} (absent : Built r)
      (present : ∀ a, Built (k a)) : Built (match o with | some a => k a | none => r)
  | times {α : Type} {r : Decode α} (item : Built r) (count : ℕ) : Built (r.times count)
  | list {α : Type} {r : Decode α} (maxItems : ℕ) (item : Built r) : Built (decodeList maxItems r)

namespace Built

/-- `take` refuses before it looks at a byte. -/
def takeTrace (count : ℕ) (i : Decoder) : List DecoderEvent :=
  if count > i.rest.length then [] else [.read count i.rest.length]

/-- A loop that takes so many items. -/
def timesTrace {α : Type} (r : Decode α) (trace : Decoder → List DecoderEvent) :
    ℕ → Decoder → List DecoderEvent
  | 0, _ => []
  | count + 1, i => trace i ++ afterwards r i fun _ j => timesTrace r trace count j

/-- What a decoder does on an input, in order. A list takes its count, makes room and takes its
items. -/
def trace {α : Type} {r : Decode α} : Built r → Decoder → List DecoderEvent
  | pure _, _ | refuse _, _ | stop .., _ | context, _ => []
  | take count, i => takeTrace count i
  | bind (r := r) first next, i => first.trace i ++ afterwards r i fun a j => (next a).trace j
  | @branch _ c _ _ _ yes no, i => if c then yes.trace i else no.trace i
  | choice (o := o) absent present, i => match o with
    | none => absent.trace i
    | some a => (present a).trace i
  | times (r := r) item count, i => timesTrace r item.trace count i
  | list (r := r) maxItems item, i =>
    afterwards Decoder.depthEnter i (fun _ j => takeTrace 4 j) ++
    afterwards (Decoder.listHeader maxItems) i fun count j =>
      .reserve count j.rest.length :: (timesTrace r item.trace count j ++
        afterwards (r.times count) j fun _ j => afterwards Decoder.depthLeave j fun _ j =>
          [.done i.context.depth j.context.depth])

/-! ### The methods of a decoder -/

variable {α β : Type}

instance (a : α) : Built (Pure.pure a : Decode α) := pure a
instance (status : Status) : Built (throw status : Decode α) := refuse status
instance (status : Status) (k : α → Decode β) : Built (throw status >>= k) := stop status k
instance : Built (get : Decode Decoder) := context
instance (count : ℕ) : Built (Decoder.take count) := take count
instance {r : Decode α} {k : α → Decode β} [first : Built r] [next : ∀ a, Built (k a)] :
    Built (r >>= k) :=
  bind first next
instance {c : Prop} [Decidable c] {r r' : Decode α} [yes : Built r] [no : Built r'] :
    Built (if c then r else r') :=
  branch yes no
instance {r : Decode α} [item : Built r] (count : ℕ) : Built (r.times count) := times item count
instance {r : Decode α} [item : Built r] (maxItems : ℕ) : Built (decodeList maxItems r) :=
  list maxItems item

instance (width : ℕ) : Built (Decoder.word width) := by delta Decoder.word; infer_instance
instance : Built Decoder.u8 := inferInstanceAs (Built (Decoder.word 1))
instance : Built Decoder.u16 := inferInstanceAs (Built (Decoder.word 2))
instance : Built Decoder.u32 := inferInstanceAs (Built (Decoder.word 4))
instance : Built Decoder.u64 := inferInstanceAs (Built (Decoder.word 8))
instance : Built Decoder.i64 := by delta Decoder.i64; infer_instance
instance : Built Decoder.boolean := by delta Decoder.boolean; infer_instance
instance : Built Decoder.str := by delta Decoder.str; infer_instance
instance : Built Decoder.requireEnd := by delta Decoder.requireEnd; infer_instance

/-! ### The decoders of records -/

section Enumerators

variable [Enumeration α] {last : α}

/-- An enumerator, or the refusal of a number that is none. -/
instance (raw : ℕ) (refusal : Status) : Built (decodeWithin raw last refusal) :=
  branch (stop ..) (choice (o := ofValue raw) (refuse refusal) pure)
instance : Built (decodeEnum last) :=
  bind inferInstance fun raw => branch (stop ..) (choice (o := ofValue raw) (refuse _) pure)
instance (refusal : String) : Built (decodeStored last refusal) := by
  delta decodeStored; infer_instance

end Enumerators

instance (refusal : ℕ → Status) : Built (decodeKey refusal) := by delta decodeKey; infer_instance
instance : Built decodeIds := by delta decodeIds; infer_instance
instance : Built decodeRequirement := by delta decodeRequirement; infer_instance
instance : Built decodeContract := by delta decodeContract; infer_instance
instance : Built decodeCapabilityEntry := by delta decodeCapabilityEntry; infer_instance
instance : Built decodeCapabilitySurface := by delta decodeCapabilitySurface; infer_instance
instance : Built decodeIsolationClaim := by delta decodeIsolationClaim; infer_instance
instance : Built decodeIsolationProfile := by delta decodeIsolationProfile; infer_instance
instance : Built decodeProjection := by delta decodeProjection; infer_instance
instance : Built decodePolicy := by delta decodePolicy; infer_instance
instance : Built decodeMigrationPlan := by delta decodeMigrationPlan; infer_instance
instance : Built decodeCounters := by delta decodeCounters; infer_instance
instance : Built decodeHeader := by delta decodeHeader; infer_instance
instance : Built decodeTenant := by delta decodeTenant; infer_instance
instance : Built decodePhysical := by delta decodePhysical; infer_instance
instance : Built decodeBacking := by delta decodeBacking; infer_instance
instance : Built decodeBackingHistory := by delta decodeBackingHistory; infer_instance
instance : Built decodeVirtual := by delta decodeVirtual; infer_instance
instance : Built decodeLease := by delta decodeLease; infer_instance
instance : Built decodeAssignment := by delta decodeAssignment; infer_instance
instance : Built decodeMigration := by delta decodeMigration; infer_instance
instance : Built decodeEvidence := by delta decodeEvidence; infer_instance
instance : Built decodeAudit := by delta decodeAudit; infer_instance
instance : Built decodeDecision := by delta decodeDecision; infer_instance
instance : Built decodeRequestOutcome := by delta decodeRequestOutcome; infer_instance

instance : (k : RecordKind) → Built (decodeRecord k)
  | .tenant => inferInstanceAs (Built decodeTenant)
  | .physical => inferInstanceAs (Built decodePhysical)
  | .backing => inferInstanceAs (Built decodeBacking)
  | .virtual => inferInstanceAs (Built decodeVirtual)
  | .lease => inferInstanceAs (Built decodeLease)
  | .assignment => inferInstanceAs (Built decodeAssignment)
  | .migration => inferInstanceAs (Built decodeMigration)
  | .evidence => inferInstanceAs (Built decodeEvidence)

/-! ### The snapshot and the records of the journal -/

instance entities (k : RecordKind) : Built (decodeEntities k) := by
  delta decodeEntities; infer_instance
instance : Built decodeState :=
  bind (inferInstanceAs (Built decodeHeader)) fun _ => bind (entities .tenant) fun _ =>
  bind (entities .physical) fun _ => bind (entities .backing) fun _ =>
  bind (entities .virtual) fun _ => bind (entities .lease) fun _ =>
  bind (entities .assignment) fun _ => bind (entities .migration) fun _ =>
  bind (entities .evidence) fun _ => inferInstance
instance {r : Decode α} [Built r] : Built (decodeWhole r) := by delta decodeWhole; infer_instance

instance (state : VirtualizationState) : (kind : EntityKind) → Built (applyRecord state kind)
  | .header => bind (inferInstanceAs (Built decodeHeader)) fun _ => pure _
  | .entity k => bind (inferInstanceAs (Built (decodeRecord k))) fun _ => pure _
  | .audit => bind (inferInstanceAs (Built decodeAudit)) fun _ => pure _
  | .decision => bind (inferInstanceAs (Built decodeDecision)) fun _ => pure _
  | .request => bind (inferInstanceAs (Built decodeRequestOutcome)) fun _ => pure _

end Built

/-! ### What every decoder keeps -/

/-- All a decoder does is safe. If it goes through, it leaves a part of its input that was at the
end, and is as deep as it was. -/
structure Bounded {α : Type} (r : Decode α) (trace : Decoder → List DecoderEvent) : Prop where
  safe : ∀ i, ∀ e ∈ trace i, e.Safe
  ends : ∀ i a j, r.run i = .ok (a, j) → j.rest <:+ i.rest ∧ j.context = i.context

namespace Bounded

open Built

variable {α β : Type} {r : Decode α} {trace : Decoder → List DecoderEvent}

/-- Taking bytes looks only at bytes that are there. -/
theorem takeTrace_safe (count : ℕ) (i : Decoder) : ∀ e ∈ takeTrace count i, e.Safe := by
  intro e he
  unfold takeTrace at he
  split at he
  · exact absurd he List.not_mem_nil
  · rw [List.mem_singleton.mp he]
    exact Nat.not_lt.mp ‹_›

/-- Taking bytes does what its trace says. -/
theorem take (count : ℕ) : Bounded (Decoder.take count) (takeTrace count) := by
  refine ⟨takeTrace_safe count, fun i data j hr => ?_⟩
  obtain ⟨-, rfl⟩ := Decoder.take_run_ok.mp hr
  exact ⟨List.suffix_append .., rfl⟩

/-- A sequence is bounded when both of its parts are. -/
theorem bind {k : α → Decode β} {next : α → Decoder → List DecoderEvent} (h : Bounded r trace)
    (h' : ∀ a, Bounded (k a) (next a)) :
    Bounded (r >>= k) fun i => trace i ++ afterwards r i next := by
  refine ⟨fun i e he => ?_, fun i b j hr => ?_⟩
  · rcases List.mem_append.mp he with he | he
    · exact h.safe i e he
    · obtain ⟨a, j, -, he⟩ := mem_afterwards.mp he
      exact (h' a).safe j e he
  · obtain ⟨a, i', ha, hb⟩ := bind_run_ok.mp hr
    obtain ⟨hfirst, hsame⟩ := h.ends i a i' ha
    obtain ⟨hsecond, hsame'⟩ := (h' a).ends i' b j hb
    exact ⟨hsecond.trans hfirst, hsame'.trans hsame⟩

/-- A repetition is bounded when one turn is. -/
theorem times (h : Bounded r trace) (count : ℕ) :
    Bounded (r.times count) (timesTrace r trace count) := by
  induction count with
  | zero =>
    refine ⟨nofun, fun i as j hr => ?_⟩
    obtain ⟨-, rfl⟩ := Prod.mk.inj (pure_run_ok.mp hr)
    exact ⟨List.suffix_rfl, rfl⟩
  | succ count ih =>
    refine ⟨fun i e he => ?_, fun i as j hr => ?_⟩
    · rcases List.mem_append.mp he with he | he
      · exact h.safe i e he
      · obtain ⟨a, i', -, he⟩ := mem_afterwards.mp he
        exact ih.safe i' e he
    · simp only [Reader.times, bind_run_ok, pure_run_ok] at hr
      obtain ⟨a, i', ha, as', i'', has, hr⟩ := hr
      obtain ⟨rfl, rfl⟩ := Prod.mk.inj hr
      obtain ⟨hfirst, hsame⟩ := h.ends i a i' ha
      obtain ⟨hrest, hsame'⟩ := ih.ends i' as' _ has
      exact ⟨hrest.trans hfirst, hsame'.trans hsame⟩

/-- The header takes its count and goes one level deeper, the items are as deep as the header left
them, and the end goes up again. -/
theorem list (h : Bounded r trace) (maxItems : ℕ) : Bounded (decodeList maxItems r) fun i =>
    afterwards Decoder.depthEnter i (fun _ j => takeTrace 4 j) ++
    afterwards (Decoder.listHeader maxItems) i fun count j =>
      .reserve count j.rest.length :: (timesTrace r trace count j ++
        afterwards (r.times count) j fun _ j => afterwards Decoder.depthLeave j fun _ j =>
          [.done i.context.depth j.context.depth]) := by
  have hend : ∀ {i i1 i2 : Decoder} {count : ℕ} {as : List α}, i1.context = i.context.deeper →
      (r.times count).run i1 = .ok (as, i2) →
      ({ i2.context with depth := i2.context.depth - 1 } : Nesting) = i.context := by
    intro i i1 i2 count as hdeeper has
    rw [((h.times count).ends i1 as i2 has).2, hdeeper]
    rfl
  refine ⟨fun i e he => ?_, fun i as j hr => ?_⟩
  · rcases List.mem_append.mp he with he | he
    · obtain ⟨_, j, -, he⟩ := mem_afterwards.mp he
      exact takeTrace_safe 4 j e he
    · obtain ⟨count, i1, hheader, he⟩ := mem_afterwards.mp he
      obtain ⟨-, hleft, -, hdeeper⟩ := Decoder.listHeader_run_ok.mp hheader
      rcases List.mem_cons.mp he with rfl | he
      · exact hleft
      rcases List.mem_append.mp he with he | he
      · exact (h.times count).safe i1 e he
      · obtain ⟨as, i2, has, he⟩ := mem_afterwards.mp he
        obtain ⟨_, i3, hleave, he⟩ := mem_afterwards.mp he
        rw [List.mem_singleton.mp he, Decoder.depthLeave_run_ok.mp hleave]
        exact congrArg Nesting.depth (hend hdeeper has)
  · simp only [decodeList, bind_run_ok, pure_run_ok, Decoder.depthLeave_run_ok] at hr
    obtain ⟨count, i1, hheader, as', i2, has, -, i3, rfl, hr⟩ := hr
    obtain ⟨-, rfl⟩ := Prod.mk.inj hr
    obtain ⟨-, -, hrest, hdeeper⟩ := Decoder.listHeader_run_ok.mp hheader
    refine ⟨((h.times count).ends i1 as' i2 has).1.trans ?_, hend hdeeper has⟩
    rw [hrest]
    exact List.suffix_append ..

end Bounded

/-- Whatever is put together from the methods of `Decoder` is bounded. -/
theorem Built.bounded {α : Type} {r : Decode α} (h : Built r) : Bounded r h.trace := by
  induction h with
  | pure a =>
    refine ⟨nofun, fun i b j hr => ?_⟩
    obtain ⟨-, rfl⟩ := Prod.mk.inj (pure_run_ok.mp hr)
    exact ⟨List.suffix_rfl, rfl⟩
  | refuse status => exact ⟨nofun, nofun⟩
  | stop status k => exact ⟨nofun, nofun⟩
  | context =>
    refine ⟨nofun, fun i d j hr => ?_⟩
    obtain ⟨-, rfl⟩ := Prod.mk.inj (Except.ok.inj hr)
    exact ⟨List.suffix_rfl, rfl⟩
  | take count => exact .take count
  | bind _ _ ih ih' => exact ih.bind ih'
  | @branch _ c _ _ _ yes no ih ih' =>
    by_cases hc : c
    · simpa only [trace, hc, if_true] using ih
    · simpa only [trace, hc, if_false] using ih'
  | @choice _ _ o _ _ absent present ih ih' =>
    cases o with
    | none => exact ih
    | some a => exact ih' a
  | times item count ih => exact ih.times count
  | list maxItems item ih => exact ih.list maxItems

/-! ### What is done with the files -/

/-- What `decode_snapshot` does with a byte string. -/
def snapshotTrace (bytes : Bytes) : List DecoderEvent :=
  Built.trace (r := decodeWhole decodeState) inferInstance (Decoder.of bytes snapshotLimits)

/-- What a turn of the loop over the records does: the two words of the header are looked at if it
is all there, then the payload for its checksum and its kind, then the body by its decoder. -/
def recordTrace (view : Bytes) (state : VirtualizationState) : List DecoderEvent :=
  if view.length < journalRecordHeaderSize then []
  else
    let length := (getU32 view 0).toNat
    let payload := (view.drop journalRecordHeaderSize).take length
    [.read 4 view.length, .read 8 view.length] ++
      if length < journalRecordPrefixSize ∨ length > maxJournalRecord then []
      else if view.length - journalRecordHeaderSize < length then []
      else .read (journalRecordHeaderSize + length) view.length ::
        if Crc32c.compute payload ≠ getU32 view 4 then []
        else .read (journalRecordHeaderSize + journalRecordPrefixSize) view.length ::
          match (ofValue (payload.headD 0).toNat : Option EntityKind) with
          | none => []
          | some kind => Built.trace (r := applyRecord state kind) inferInstance
              (Decoder.of (payload.drop journalRecordPrefixSize))

/-- A turn of the loop: where it begins, how long a payload the record there declares, what is done,
and where the next turn begins if the record is accepted. -/
structure Turn where
  offset : ℕ
  declared : ℕ
  events : List DecoderEvent
  next : Option ℕ

/-- The turns of the loop from an offset on. -/
def replayTurns : ℕ → ℕ → Bytes → VirtualizationState → List Turn
  | 0, _, _, _ => []
  | fuel + 1, offset, view, state =>
    if view.isEmpty then []
    else
      let turn := fun next => Turn.mk offset (getU32 view 0).toNat (recordTrace view state) next
      match nextRecord offset view state with
      | .ok (.ok (state, size)) =>
        turn (some (offset + size)) :: replayTurns fuel (offset + size) (view.drop size) state
      | _ => [turn none]

/-- A turn is safe in a file of so many bytes: what it does is, and an accepted record moves the
offset past its header and the payload that it declares, inside of the file. -/
structure Turn.Safe (size : ℕ) (t : Turn) : Prop where
  events : ∀ e ∈ t.events, e.Safe
  within : t.offset < size
  advances : ∀ n, t.next = some n → n = t.offset + journalRecordHeaderSize + t.declared ∧
    journalRecordPrefixSize ≤ t.declared ∧ n ≤ size

variable {view : Bytes} {state state' : VirtualizationState} {offset fuel n size : ℕ}

/-- Decoding one record of the journal is safe. -/
theorem recordTrace_safe (view : Bytes) (state : VirtualizationState) :
    ∀ e ∈ recordTrace view state, e.Safe := by
  unfold recordTrace
  by_cases hshort : view.length < journalRecordHeaderSize
  · rw [if_pos hshort]
    exact nofun
  rw [if_neg hshort]
  intro e he
  have height : 8 ≤ view.length := Nat.not_lt.mp hshort
  rcases List.mem_append.mp he with he | he
  · rcases List.mem_pair.mp he with rfl | rfl
    · exact Nat.le_trans (by decide) height
    · exact height
  by_cases hinvalid : (getU32 view 0).toNat < journalRecordPrefixSize ∨
      (getU32 view 0).toNat > maxJournalRecord
  · rw [if_pos hinvalid] at he
    exact absurd he List.not_mem_nil
  rw [if_neg hinvalid] at he
  by_cases hcut : view.length - journalRecordHeaderSize < (getU32 view 0).toNat
  · rw [if_pos hcut] at he
    exact absurd he List.not_mem_nil
  rw [if_neg hcut] at he
  rcases List.mem_cons.mp he with rfl | he
  · change journalRecordHeaderSize + (getU32 view 0).toNat ≤ view.length
    omega
  split at he
  · exact absurd he List.not_mem_nil
  rcases List.mem_cons.mp he with rfl | he
  · change journalRecordHeaderSize + journalRecordPrefixSize ≤ view.length
    omega
  split at he
  · exact absurd he List.not_mem_nil
  · exact (Built.bounded inferInstance).safe _ e he

/-- An accepted record takes its header and the payload that it declares. -/
theorem nextRecord_declared (h : nextRecord offset view state = .ok (.ok (state', n))) :
    n = journalRecordHeaderSize + (getU32 view 0).toNat ∧
      journalRecordPrefixSize ≤ (getU32 view 0).toNat ∧ n ≤ view.length := by
  obtain ⟨payload, rest, rfl, hrecorded, rfl⟩ := nextRecord_eq_ok.mp h
  have hmost := hrecorded.most
  have hdeclared : (getU32 (frameRecord payload ++ rest) 0).toNat = payload.length := by
    have hdrop : (frameRecord payload ++ rest).drop 0 = putU32 (.ofNat payload.length) ++
        (putU32 (Crc32c.compute payload) ++ payload ++ rest) := by
      simp only [frameRecord, List.append_assoc, List.drop_zero]
    rw [getU32_of_drop hdrop, UInt32.toNat_ofNat']
    unfold maxJournalRecord at hmost
    omega
  rw [hdeclared, length_frameRecord, List.length_append, length_frameRecord]
  exact ⟨rfl, hrecorded.least, Nat.le_add_right ..⟩

/-- A turn at the front of the loop and, if its record is accepted, the ones after it. -/
theorem replayTurns_cases (hne : view ≠ []) :
    (∃ state' n, nextRecord offset view state = .ok (.ok (state', n)) ∧
      replayTurns (fuel + 1) offset view state =
        ⟨offset, (getU32 view 0).toNat, recordTrace view state, some (offset + n)⟩ ::
          replayTurns fuel (offset + n) (view.drop n) state') ∨
    replayTurns (fuel + 1) offset view state =
      [⟨offset, (getU32 view 0).toNat, recordTrace view state, none⟩] := by
  rw [replayTurns, if_neg (by simpa using hne)]
  rcases hnext : nextRecord offset view state with status | detail | ⟨state', n⟩
  · exact .inr rfl
  · exact .inr rfl
  · exact .inl ⟨state', n, rfl, rfl⟩

/-- An empty journal takes no turn. -/
theorem replayTurns_nil : replayTurns fuel offset [] state = [] := by
  cases fuel with
  | zero => rfl
  | succ fuel => rfl

/-- Every turn of a replay is safe. -/
theorem replayTurns_safe (hsize : offset + view.length = size) :
    ∀ t ∈ replayTurns fuel offset view state, t.Safe size := by
  induction fuel generalizing offset view state with
  | zero => exact nofun
  | succ fuel ih =>
    by_cases hne : view = []
    · subst hne
      exact nofun
    have hpos := List.length_pos_of_ne_nil hne
    have hbegins : offset < size := by omega
    have hevents := recordTrace_safe view state
    rcases @replayTurns_cases view state offset fuel hne with
      ⟨state', n, hnext, hturns⟩ | hturns
    · obtain ⟨hn, hleast, hmost⟩ := nextRecord_declared hnext
      rw [hturns, List.forall_mem_cons]
      have hnext : offset + n = offset + journalRecordHeaderSize + (getU32 view 0).toNat ∧
          offset + n ≤ size := by omega
      refine ⟨⟨hevents, hbegins, fun m hm => ?_⟩, ih ?_⟩
      · obtain rfl := Option.some.inj hm
        exact ⟨hnext.1, hleast, hnext.2⟩
      · rw [List.length_drop]
        omega
    · rw [hturns, List.forall_mem_singleton]
      exact ⟨hevents, hbegins, nofun⟩

/-- There are no more accepted records than the bytes have room for. -/
theorem replayTurns_count : ((replayTurns fuel offset view state).countP fun t => t.next.isSome) *
    (journalRecordHeaderSize + journalRecordPrefixSize) ≤ view.length := by
  induction fuel generalizing offset view state with
  | zero => exact (Nat.zero_mul _).trans_le (Nat.zero_le _)
  | succ fuel ih =>
    by_cases hne : view = []
    · subst hne
      exact Nat.le_of_eq (Nat.zero_mul _)
    rcases @replayTurns_cases view state offset fuel hne with
      ⟨state', n, hnext, hturns⟩ | hturns
    · obtain ⟨hn, hleast, hmost⟩ := nextRecord_declared hnext
      have hrest := @ih (view.drop n) state' (offset + n)
      rw [List.length_drop] at hrest
      rw [hturns, List.countP_cons_of_pos rfl, Nat.add_mul]
      omega
    · rw [hturns, List.countP_cons_of_neg Bool.false_ne_true]
      exact (Nat.zero_mul _).trans_le (Nat.zero_le _)

/-- The turns do not depend on the fuel as soon as there is as much as there are bytes. -/
theorem replayTurns_fuel {fuel' : ℕ} (hfuel : view.length ≤ fuel) (hfuel' : view.length ≤ fuel') :
    replayTurns fuel offset view state = replayTurns fuel' offset view state := by
  induction fuel generalizing fuel' offset view state with
  | zero =>
    obtain rfl : view = [] := List.length_eq_zero_iff.mp (by omega)
    rw [replayTurns_nil, replayTurns_nil]
  | succ fuel ih =>
    by_cases hne : view = []
    · subst hne
      rw [replayTurns_nil, replayTurns_nil]
    have hpos := List.length_pos_of_ne_nil hne
    obtain ⟨fuel', rfl⟩ : ∃ n, fuel' = n + 1 := ⟨fuel' - 1, by omega⟩
    rw [replayTurns, replayTurns]
    rcases hnext : nextRecord offset view state with status | detail | ⟨state', n⟩
    · rfl
    · rfl
    · obtain ⟨hn, hleast, hmost⟩ := nextRecord_declared hnext
      unfold journalRecordHeaderSize at hn
      have hdrop : (view.drop n).length = view.length - n := List.length_drop
      have hturns := @ih (view.drop n) state' (offset + n) fuel' (by omega) (by omega)
      simp only [hturns]

/-- What `replay_journal` looks at before the loop. -/
def journalHeaderTrace (bytes : Bytes) : List DecoderEvent :=
  if bytes.length < journalHeaderSize then [] else [.read 4 bytes.length, .read 8 bytes.length]

/-- The turns of the loop of `replay_journal`, if it is begun. -/
def journalTurns (state : VirtualizationState) (bytes : Bytes) : List Turn :=
  if bytes.length < journalHeaderSize ∨ getU32 bytes 0 ≠ journalMagic ∨
      getU32 bytes 4 ≠ .ofNat schemaVersion then []
  else replayTurns bytes.length journalHeaderSize (bytes.drop journalHeaderSize) state

/-- For every byte string, all that decoding a snapshot does is safe, and so are the turns of the
loop over the records of a journal. There are no more accepted records than there is room for, and
the loop comes to its end: more turns than there are bytes would change nothing. -/
theorem decoders_bounded (bytes : Bytes) :
    (∀ e ∈ snapshotTrace bytes, e.Safe) ∧
    ∀ (tornTail : TornTail) (state : VirtualizationState),
      (∀ e ∈ journalHeaderTrace bytes, e.Safe) ∧
      (∀ t ∈ journalTurns state bytes, t.Safe bytes.length) ∧
      ((journalTurns state bytes).countP fun t => t.next.isSome) *
        (journalRecordHeaderSize + journalRecordPrefixSize) ≤ bytes.length ∧
      ∀ fuel, bytes.length ≤ fuel →
        replayTurns fuel journalHeaderSize (bytes.drop journalHeaderSize) state =
          replayTurns bytes.length journalHeaderSize (bytes.drop journalHeaderSize) state ∧
        replayRecords tornTail fuel journalHeaderSize (bytes.drop journalHeaderSize) state =
          replayRecords tornTail bytes.length journalHeaderSize (bytes.drop journalHeaderSize)
            state := by
  have hdrop : (bytes.drop journalHeaderSize).length = bytes.length - journalHeaderSize :=
    List.length_drop
  refine ⟨(Built.bounded inferInstance).safe _, fun tornTail state => ⟨?_, ?_, ?_, ?_⟩⟩
  · unfold journalHeaderTrace
    -- a journal shorter than its header is not read at all
    by_cases hshort : bytes.length < journalHeaderSize
    · rw [if_pos hshort]
      exact nofun
    · have height : 8 ≤ bytes.length := Nat.not_lt.mp hshort
      rw [if_neg hshort, List.forall_mem_cons, List.forall_mem_singleton]
      exact ⟨Nat.le_trans (by decide) height, height⟩
  · unfold journalTurns
    split
    · exact nofun
    · rename_i hheader
      exact replayTurns_safe (by omega)
  · unfold journalTurns
    split
    · exact (Nat.zero_mul _).trans_le (Nat.zero_le _)
    · exact replayTurns_count.trans (by omega)
  · exact fun fuel hfuel => ⟨replayTurns_fuel (by omega) (by omega),
      replayRecords_fuel (by omega) (by omega)⟩

end AcceleratorVirtualization
