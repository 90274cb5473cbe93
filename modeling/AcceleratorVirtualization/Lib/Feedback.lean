import Mathlib.Data.BitVec
import Mathlib.Logic.Function.Iterate

/-!
# Linear feedback registers

A register that is shifted to the right and fed back through a polynomial whenever a one falls out.
Symbols are added into its low end and shifted through. The register is linear, and it forgets
nothing if the polynomial has its top bit set; so two words of one length that differ in no more
bits than the register has leave it in different states, wherever they stand in a longer word.
-/

namespace FeedbackRegister

variable {w m : ℕ} (poly : BitVec w)

/-- Shift by one bit. -/
def step (x : BitVec w) : BitVec w :=
  if x.getLsbD 0 then (x >>> 1) ^^^ poly else x >>> 1

/-- Add a symbol and shift it through. -/
def feed (x : BitVec w) (symbol : BitVec m) : BitVec w :=
  (step poly)^[m] (x ^^^ symbol.setWidth w)

/-- The register after all `symbols` have been fed to it, from the left. -/
def feedAll (x : BitVec w) (symbols : List (BitVec m)) : BitVec w :=
  symbols.foldl (feed poly) x

/-- The symbols side by side, the first one lowest. -/
def wordOf (w : ℕ) : List (BitVec m) → BitVec w
  | [] => 0
  | symbol :: symbols => symbol.setWidth w ^^^ (wordOf w symbols <<< m)

/-! ### Linearity -/

/-- One step is linear. -/
theorem step_xor (x y : BitVec w) : step poly (x ^^^ y) = step poly x ^^^ step poly y := by
  rw [step, step, step, BitVec.getLsbD_xor, BitVec.ushiftRight_xor_distrib]
  cases hx : x.getLsbD 0 with
  | false =>
    cases hy : y.getLsbD 0 with
    | false => simp
    | true => simp [BitVec.xor_assoc]
  | true =>
    cases hy : y.getLsbD 0 with
    | false => simp only [Bool.xor_false, if_true, Bool.false_eq_true, if_false]; ac_rfl
    | true =>
      -- the polynomial cancels
      have hcancel : x >>> 1 ^^^ poly ^^^ (y >>> 1 ^^^ poly) =
          x >>> 1 ^^^ y >>> 1 ^^^ (poly ^^^ poly) := by ac_rfl
      simp [hcancel]

/-- So are many. -/
theorem iterate_step_xor (n : ℕ) (x y : BitVec w) :
    (step poly)^[n] (x ^^^ y) = (step poly)^[n] x ^^^ (step poly)^[n] y := by
  induction n generalizing x y with
  | zero => rfl
  | succ n ih => rw [Function.iterate_succ_apply, Function.iterate_succ_apply,
      Function.iterate_succ_apply, step_xor, ih]

variable {poly}

/-- With the top bit of the polynomial set, what fell out can be told from what is left. -/
theorem step_injective (htop : poly.getLsbD (w - 1) = true) : Function.Injective (step poly) := by
  intro x y h
  have hz : step poly (x ^^^ y) = 0#w := by rw [step_xor, h, BitVec.xor_self]
  refine BitVec.xor_eq_zero_iff.mp ?_
  generalize x ^^^ y = z at hz
  rw [step] at hz
  have hw : 0 < w := by
    by_contra hw
    rw [BitVec.getLsbD_of_ge _ _ (by omega)] at htop
    exact nomatch htop
  split at hz
  · have heq : z >>> 1 = poly := BitVec.xor_eq_zero_iff.mp hz
    rw [← heq, BitVec.getLsbD_ushiftRight, BitVec.getLsbD_of_ge _ _ (by omega)] at htop
    exact nomatch htop
  · rename_i hlow
    refine BitVec.eq_of_getLsbD_eq fun i hi => ?_
    rw [Bool.not_eq_true] at hlow
    cases i with
    | zero => rw [hlow]; simp
    | succ i =>
      have hbit := congrArg (·.getLsbD i) hz
      simp only [BitVec.getLsbD_ushiftRight, Nat.add_comm 1 i] at hbit
      rw [hbit]
      simp

/-- Feeding a symbol loses nothing, as the highest tap is set. -/
theorem feed_injective (htop : poly.getLsbD (w - 1) = true) (symbol : BitVec m) :
    Function.Injective fun x => feed poly x symbol := by
  intro x y h
  have heq : x ^^^ symbol.setWidth w = y ^^^ symbol.setWidth w :=
    (step_injective htop).iterate m h
  exact (BitVec.xor_left_inj _).mp heq

/-- Nor does feeding many. -/
theorem feedAll_injective (htop : poly.getLsbD (w - 1) = true) (symbols : List (BitVec m)) :
    Function.Injective fun x => feedAll poly x symbols := by
  induction symbols with
  | nil => exact fun x y h => h
  | cons symbol symbols ih => exact fun x y h => feed_injective htop symbol (ih h)

/-! ### Short words -/

/-- A word whose bits from `k` on are zero. -/
def Below (k : ℕ) (x : BitVec w) : Prop := ∀ i, k ≤ i → x.getLsbD i = false

/-- A word that was moved up by one is moved back down. -/
theorem step_shiftLeft_one {x : BitVec w} (h : Below (w - 1) x) : step poly (x <<< 1) = x := by
  have hlow : (x <<< 1).getLsbD 0 = false := by simp
  rw [step, hlow, if_neg Bool.false_ne_true]
  refine BitVec.eq_of_getLsbD_eq fun i hi => ?_
  rw [BitVec.getLsbD_ushiftRight, BitVec.getLsbD_shiftLeft]
  by_cases htop : 1 + i < w
  · simp [htop]
  · rw [h i (by omega)]
    simp [htop]

/-- While no bit is shifted out, steps undo the shift. -/
theorem iterate_step_shiftLeft {k : ℕ} {x : BitVec w} (h : Below (w - k) x) :
    (step poly)^[k] (x <<< k) = x := by
  induction k with
  | zero => simp
  | succ k ih =>
    have hmoved : Below (w - 1) (x <<< k) := by
      intro i hi
      rw [BitVec.getLsbD_shiftLeft, h (i - k) (by omega), Bool.and_false]
    rw [BitVec.shiftLeft_add, Function.iterate_succ_apply, step_shiftLeft_one hmoved]
    exact ih fun i hi => h i (by omega)

/-- As many symbols as a word has room for are below its top. -/
theorem below_wordOf {symbols : List (BitVec m)} (h : m * symbols.length ≤ w) :
    Below (m * symbols.length) (wordOf w symbols) := by
  induction symbols with
  | nil => exact fun i _ => BitVec.getLsbD_zero
  | cons symbol symbols ih =>
    intro i hi
    rw [List.length_cons, Nat.mul_succ] at h hi
    rw [wordOf, BitVec.getLsbD_xor, BitVec.getLsbD_setWidth, BitVec.getLsbD_shiftLeft,
      BitVec.getLsbD_of_ge symbol i (by omega), ih (by omega) (i - m) (by omega)]
    simp

/-- Symbols that fit into the register are what they are side by side. -/
theorem feedAll_eq {symbols : List (BitVec m)} (h : m * symbols.length ≤ w) (x : BitVec w) :
    feedAll poly x symbols = (step poly)^[m * symbols.length] (x ^^^ wordOf w symbols) := by
  induction symbols generalizing x with
  | nil => simp [feedAll, wordOf]
  | cons symbol symbols ih =>
    rw [List.length_cons, Nat.mul_succ] at h
    have hfits : Below (w - m) (wordOf w symbols) := by
      intro i hi
      exact below_wordOf (by omega) i (by omega)
    have hword : feed poly x symbol ^^^ wordOf w symbols =
        (step poly)^[m] (x ^^^ wordOf w (symbol :: symbols)) := by
      rw [wordOf, ← BitVec.xor_assoc, iterate_step_xor, iterate_step_shiftLeft hfits]
      rfl
    calc feedAll poly x (symbol :: symbols)
        = feedAll poly (feed poly x symbol) symbols := rfl
      _ = (step poly)^[m * symbols.length] (feed poly x symbol ^^^ wordOf w symbols) :=
          ih (by omega) _
      _ = (step poly)^[m * (symbol :: symbols).length] (x ^^^ wordOf w (symbol :: symbols)) := by
          rw [hword, ← Function.iterate_add_apply, List.length_cons, Nat.mul_succ]

/-- Symbols are told from the word they make up. -/
theorem wordOf_injective {symbols symbols' : List (BitVec m)}
    (hlength : symbols.length = symbols'.length) (h : m * symbols.length ≤ w)
    (heq : wordOf w symbols = wordOf w symbols') : symbols = symbols' := by
  induction symbols generalizing symbols' with
  | nil => exact (List.length_eq_zero_iff.mp hlength.symm).symm
  | cons symbol symbols ih =>
    cases symbols' with
    | nil => exact nomatch hlength
    | cons symbol' symbols' =>
      simp only [List.length_cons, Nat.add_right_cancel_iff] at hlength
      rw [List.length_cons, Nat.mul_succ] at h
      have hbit : ∀ i, (wordOf w (symbol :: symbols)).getLsbD i =
          (wordOf w (symbol' :: symbols')).getLsbD i := fun i => by rw [heq]
      simp only [wordOf, BitVec.getLsbD_xor, BitVec.getLsbD_setWidth, BitVec.getLsbD_shiftLeft]
        at hbit
      congr 1
      · -- the lowest bits are those of the first symbol
        refine BitVec.eq_of_getLsbD_eq fun i hi => ?_
        have hi' := hbit i
        simpa [show i < w by omega, hi] using hi'
      · refine ih hlength (by omega) (BitVec.eq_of_getLsbD_eq fun i hi => ?_)
        by_cases hfits : i < m * symbols.length
        · have hi' := hbit (i + m)
          simpa [show i + m < w by omega, show ¬ i + m < m by omega,
            BitVec.getLsbD_of_ge symbol (i + m) (by omega),
            BitVec.getLsbD_of_ge symbol' (i + m) (by omega)] using hi'
        · rw [below_wordOf (by omega) i (by omega),
            below_wordOf (by rw [← hlength]; omega) i (by rw [← hlength]; omega)]

/-- A burst no longer than the register, with any symbols before it and after it, shows. -/
theorem feedAll_burst (htop : poly.getLsbD (w - 1) = true) (x : BitVec w)
    (before after : List (BitVec m)) {burst burst' : List (BitVec m)}
    (hlength : burst.length = burst'.length) (hfits : m * burst.length ≤ w) (hne : burst ≠ burst') :
    feedAll poly x (before ++ burst ++ after) ≠ feedAll poly x (before ++ burst' ++ after) := by
  intro h
  simp only [feedAll, List.foldl_append] at h
  have hburst := feedAll_injective htop after h
  have hstates : feedAll poly (before.foldl (feed poly) x) burst =
      feedAll poly (before.foldl (feed poly) x) burst' := hburst
  rw [feedAll_eq hfits, feedAll_eq (hlength ▸ hfits), hlength] at hstates
  have hsame := (step_injective htop).iterate _ hstates
  exact hne (wordOf_injective hlength hfits ((BitVec.xor_right_inj _).mp hsame))

end FeedbackRegister
