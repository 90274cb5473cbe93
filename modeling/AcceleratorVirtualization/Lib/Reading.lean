import Mathlib.Data.List.Basic
import Mathlib.Logic.Basic

/-!
# Readers of a stream

A reader takes a value off the front of a stream of symbols, or fails. It *reads* a word as a value
if it takes exactly that word off every stream that begins with it; it is *canonical* for a way of
writing if what it takes off is always what is written for the value it answers. Both are said of
records field by field: the word of a sequence of readers is the words in a row, and what a sequence
takes off is split at what its first reader takes off.

Readers keep a context beside the stream (how deep they are, what they may accept). A word is read
in a given context and leaves it as it was.
-/

/-- What is left of a stream, and the context it is read in. -/
@[ext]
structure Input (β γ : Type) where
  rest : List β
  context : γ

/-- A reader answers a value and leaves an input, or fails. -/
abbrev Reader (ε β γ α : Type) := StateT (Input β γ) (Except ε) α

namespace Reader

variable {ε β γ α α' : Type} {c : γ} {r : Reader ε β γ α} {a : α}

/-! ### Running -/

/-- A reader that reads nothing leaves the input as it is. -/
theorem pure_run_ok {i : Input β γ} {o : α × Input β γ} :
    (pure a : Reader ε β γ α).run i = .ok o ↔ o = (a, i) :=
  ⟨fun h => (Except.ok.inj h).symm, fun h => congrArg Except.ok h.symm⟩

/-- Two readers in a row accept when the second accepts what the first left. -/
theorem bind_run_ok {k : α → Reader ε β γ α'} {i : Input β γ} {o : α' × Input β γ} :
    (r >>= k).run i = .ok o ↔ ∃ a j, r.run i = .ok (a, j) ∧ (k a).run j = .ok o := by
  simp only [StateT.run_bind]
  cases h : r.run i with
  | error e => simp [bind, Except.bind]
  | ok p => simp [bind, Except.bind, Prod.ext_iff]

/-- The value alone, whatever is left of the input. -/
theorem run'_ok {i : Input β γ} : r.run' i = .ok a ↔ ∃ j, r.run i = .ok (a, j) := by
  unfold StateT.run' StateT.run
  cases h : r i with
  | error e => simp [Functor.map, Except.map]
  | ok p => simp [Functor.map, Except.map, Prod.ext_iff]

/-- A first reader that accepts hands on what it left. -/
theorem bind_run_of_ok {k : α → Reader ε β γ α'} {i j : Input β γ} (h : r.run i = .ok (a, j)) :
    (r >>= k).run i = (k a).run j := by
  simp only [StateT.run_bind, h]
  rfl

/-- A guard in front of a reader. -/
theorem guard_run_ok {p : Prop} [Decidable p] {e : ε} {k : PUnit → Reader ε β γ α}
    {i : Input β γ} {o : α × Input β γ} :
    (if p then (throw e >>= k) else r : Reader ε β γ α).run i = .ok o ↔ ¬ p ∧ r.run i = .ok o := by
  by_cases h : p
  · simp only [h, if_true, not_true, false_and, iff_false]
    intro hbad
    cases hbad
  · simp [h]

/-- The reader again and again, as often as is asked for. -/
def times (r : Reader ε β γ α) : ℕ → Reader ε β γ (List α)
  | 0 => pure []
  | n + 1 => do
    let a ← r
    let as ← times r n
    return a :: as

/-! ### Reading a word -/

/-- The reader takes the word off every stream that begins with it, as the value. -/
def Reads (c : γ) (r : Reader ε β γ α) (word : List β) (a : α) : Prop :=
  ∀ rest, r.run ⟨word ++ rest, c⟩ = .ok (a, ⟨rest, c⟩)

/-- Nothing is read for a value that is given. -/
theorem reads_pure : Reads c (pure a : Reader ε β γ α) [] a := fun _ => rfl

/-- Two words in a row are read one after the other. -/
theorem Reads.bind {k : α → Reader ε β γ α'} {word word' : List β} {a' : α'}
    (h : Reads c r word a) (h' : Reads c (k a) word' a') :
    Reads c (r >>= k) (word ++ word') a' := by
  intro rest
  rw [List.append_assoc, bind_run_of_ok (h (word' ++ rest))]
  exact h' rest

/-- The first word of several in a row. -/
theorem Reads.cons {k : α → Reader ε β γ α'} {word : List β} {words : List (List β)} {a' : α'}
    (h : Reads c r word a) (h' : Reads c (k a) words.flatten a') :
    Reads c (r >>= k) (word :: words).flatten a' := h.bind h'

/-- What comes last adds nothing to the word. -/
theorem Reads.last {k : α → Reader ε β γ α'} {word : List β} {a' : α'} (h : Reads c r word a)
    (h' : Reads c (k a) [] a') : Reads c (r >>= k) word a' := by
  have hb := h.bind h'
  rwa [List.append_nil] at hb

/-- What is read may be mapped. -/
theorem Reads.map {f : α → α'} {word : List β} (h : Reads c r word a) :
    Reads c (f <$> r) word (f a) := by
  intro rest
  rw [StateT.run_map, h rest]
  rfl

/-- A guard that lets the value pass. -/
theorem Reads.guard {p : Prop} [Decidable p] {e : ε} {k : PUnit → Reader ε β γ α} {word : List β}
    (hp : ¬ p) (h : Reads c r word a) :
    Reads c (if p then (throw e >>= k) else r : Reader ε β γ α) word a := by
  rw [if_neg hp]
  exact h

/-- A list is read item by item. -/
theorem reads_times {write : α → List β} {as : List α} (h : ∀ a ∈ as, Reads c r (write a) a) :
    Reads c (times r as.length) (as.flatMap write) as := by
  induction as with
  | nil => exact reads_pure
  | cons a as ih =>
    rw [List.forall_mem_cons] at h
    exact h.1.bind ((ih h.2).last reads_pure)

/-! ### Canonical readers -/

/-- The reader takes off only what is written for the value it answers, which is of a kind that may
depend on the context. -/
def Canonical (r : Reader ε β γ α) (write : α → List β) (kind : γ → α → Prop) : Prop :=
  ∀ i a j, r.run i = .ok (a, j) → kind j.context a ∧ i = ⟨write a ++ j.rest, j.context⟩

variable {write : α → List β} {kind : γ → α → Prop}

/-- The kind of a canonical reader may be widened. -/
theorem Canonical.mono {kind' : γ → α → Prop} (h : Canonical r write kind)
    (hk : ∀ c a, kind c a → kind' c a) : Canonical r write kind' :=
  fun i a j hr => (h i a j hr).imp_left (hk j.context a)

/-- A value that is read off a whole stream is written as that stream. -/
theorem Canonical.eq_write (h : Canonical r write kind) {word : List β} {j : Input β γ}
    (hr : r.run ⟨word, c⟩ = .ok (a, j)) (hj : j.rest = []) : kind c a ∧ word = write a := by
  obtain ⟨hk, hi⟩ := h _ a j hr
  obtain ⟨hword, hc⟩ := Input.mk.inj hi
  rw [hj, List.append_nil] at hword
  exact ⟨hc ▸ hk, hword⟩

/-- Reading a number of items is canonical when reading one is. -/
theorem canonical_times (h : Canonical r write kind) (n : ℕ) :
    Canonical (times r n) (fun as => as.flatMap write) fun c as =>
      as.length = n ∧ ∀ a ∈ as, kind c a := by
  induction n with
  | zero =>
    intro i as j hr
    obtain ⟨rfl, rfl⟩ := Prod.mk.inj (pure_run_ok.mp hr)
    exact ⟨⟨rfl, nofun⟩, rfl⟩
  | succ n ih =>
    intro i as j hr
    simp only [times, bind_run_ok, pure_run_ok] at hr
    obtain ⟨a, i1, ha, as', i2, has, hr⟩ := hr
    obtain ⟨rfl, rfl⟩ := Prod.mk.inj hr
    obtain ⟨hkind, rfl⟩ := h _ _ _ ha
    obtain ⟨⟨hlength, hkinds⟩, hi1⟩ := ih _ _ _ has
    have hc : i1.context = j.context := by rw [hi1]
    refine ⟨⟨by simp [hlength], List.forall_mem_cons.mpr ⟨hc ▸ hkind, hkinds⟩⟩, ?_⟩
    simp only [hi1, List.flatMap_cons, List.append_assoc]

/-- What a reader takes off, behind the words that were taken off before it, is what is written for
its answer. -/
def Undoes (c : γ) (words : List (List β)) (r : Reader ε β γ α) (write : α → List β)
    (kind : γ → α → Prop) : Prop :=
  ∀ i a j, i.context = c → r.run i = .ok (a, j) →
    words.flatten ++ i.rest = write a ++ j.rest ∧ j.context = c ∧ kind c a

variable {r' : Reader ε β γ α'} {write' : α' → List β} {kind' : γ → α' → Prop}
  {words : List (List β)}

/-- One field of several. -/
theorem Canonical.step {k : α' → Reader ε β γ α} (h : Canonical r' write' kind')
    (hk : ∀ a', kind' c a' → Undoes c (words ++ [write' a']) (k a') write kind) :
    Undoes c words (r' >>= k) write kind := by
  intro i a j hc hr
  obtain ⟨a', i1, ha', hrun⟩ := bind_run_ok.mp hr
  obtain ⟨hkind, rfl⟩ := h _ _ _ ha'
  obtain ⟨hrest, hend⟩ := hk a' (hc ▸ hkind) i1 a j hc hrun
  rw [List.flatten_append, List.flatten_singleton, List.append_assoc] at hrest
  exact ⟨hrest, hend⟩

/-- Nothing is left to be read. -/
theorem undoes_pure (hwrite : write a = words.flatten) (hkind : kind c a) :
    Undoes c words (pure a : Reader ε β γ α) write kind := by
  intro i a' j hc hr
  obtain ⟨rfl, rfl⟩ := Prod.mk.inj (pure_run_ok.mp hr)
  exact ⟨by rw [hwrite], hc, hkind⟩

/-- A reader is canonical if it takes off its fields one after the other. -/
theorem Canonical.of_undoes (h : ∀ c, Undoes c [] r write kind) : Canonical r write kind := by
  intro i a j hr
  obtain ⟨hrest, hc, hkind⟩ := h i.context i a j rfl hr
  rw [hc]
  exact ⟨hkind, Input.ext hrest rfl⟩

end Reader
