import Mathlib.Algebra.Group.Int.Defs
import Relational.Proofs.Arithmetic.Evaluation

/-! Exactness: an integer operator gives its exact value, and overflows where no machine word holds it. -/

namespace Relational

/-- An integer is one that a machine word can hold. -/
def InRange (n : Int) : Prop :=
  -2 ^ 63 ≤ n ∧ n < 2 ^ 63

/-- Exactly the integers in range are held by some machine word. -/
theorem inRange_iff_exists_word {n : Int} : InRange n ↔ ∃ w : Int64, w.toInt = n := by
  -- The bounds of the range are those of machine words.
  constructor
  · intro inRange
    obtain ⟨least, greatest⟩ := inRange
    exact ⟨Int64.ofInt n, Int64.toInt_ofInt_of_le (by omega) (by omega)⟩
  · intro held
    obtain ⟨w, rfl⟩ := held
    exact ⟨w.le_toInt, w.toInt_lt⟩

/-- A quotient is in range, unless the least machine word is divided by minus one. -/
theorem inRange_tdiv_iff {a b : Int64} :
    InRange (a.toInt.tdiv b.toInt) ↔ ¬ (a = Int64.minValue ∧ b = -1) := by
  constructor
  · -- The least machine word has no counterpart among the words.
    intro inRange only
    obtain ⟨rfl, rfl⟩ := only
    exact absurd inRange.2 (by decide)
  · intro other
    have least := a.le_toInt
    have greatest := a.toInt_lt
    unfold InRange
    by_cases large : 2 ≤ b.toInt.natAbs
    · -- A divisor of magnitude two or more at least halves the magnitude.
      have half : (a.toInt.tdiv b.toInt).natAbs ≤ a.toInt.natAbs / 2 := by
        rw [Int.natAbs_tdiv]
        exact Nat.div_le_div_left large (by decide)
      omega
    · rcases (by omega : b.toInt = 0 ∨ b.toInt = 1 ∨ b.toInt = -1) with zero | one | mirrored
      · -- A quotient by zero is zero.
        rw [zero, Int.tdiv_zero]
        decide
      · rw [one, Int.tdiv_one]
        omega
      · -- Only the least word has no negative.
        have notLeast : a.toInt ≠ -2 ^ 63 := fun same =>
          other ⟨Int64.toInt_inj.1 same, Int64.toInt_inj.1 mirrored⟩
        rw [mirrored, Int.tdiv_neg, Int.tdiv_one]
        omega

namespace Operator

/-- The exact value of an operator on integers, where it has one; quotients are cut off toward zero. -/
def exactValue? : Operator → Int → Int → Option Int
  | .add, a, b => some (a + b)
  | .sub, a, b => some (a - b)
  | .mul, a, b => some (a * b)
  | .div, a, b => if b = 0 then none else some (a.tdiv b)
  | .rem, a, b => if b = 0 then none else some (a.tmod b)
  | .and, _, _ | .or, _, _ => none

/-- Evaluating an operator on two machine words gives exactly what exact arithmetic says. -/
structure EvaluatesExactly (op : Operator) (a b : Int64) : Prop where
  /-- Only a division can be one by zero. -/
  zero : op.evaluate (.int a) (.int b) = .error .divisionByZero ↔ (op = .div ∨ op = .rem) ∧ b = 0
  /-- There is a value exactly where the exact one is in range, and then it is that one. -/
  value : ∀ n, op.exactValue? a.toInt b.toInt = some n →
    ((∃ w : Int64, op.evaluate (.int a) (.int b) = .ok (.int w) ∧ w.toInt = n) ↔ InRange n)
  overflow : ∀ n, op.exactValue? a.toInt b.toInt = some n →
    (op.evaluate (.int a) (.int b) = .error (.overflow op) ↔ ¬ InRange n)

variable {op : Operator} {a b : Int64} {n : Int}

/-- A checked value overflows exactly where it is out of range. -/
theorem checked_eq_overflow_iff : checked op n = .error (.overflow op) ↔ ¬ InRange n := by
  rw [inRange_iff_exists_word, not_exists, checked]
  -- The overflow is reported where no word holds the value.
  cases held : word? n with
  | none => simpa using word?_eq_none_iff.1 held
  | some w => simpa using ⟨w, word?_eq_some_iff.1 held⟩

/-- An operator whose value is only checked for its range evaluates exactly. -/
theorem EvaluatesExactly.of_checked (exact : op.exactValue? a.toInt b.toInt = some n)
    (evaluated : op.evaluate (.int a) (.int b) = checked op n) : op.EvaluatesExactly a b where
  -- No checked value is a division by zero.
  zero := by
    rw [evaluated, checked]
    constructor
    · intro failed
      cases held : word? n <;> rw [held] at failed <;> cases failed
    · -- Where the divisor is zero there is no exact value.
      rintro ⟨rfl | rfl, rfl⟩ <;> cases exact
  value := by
    -- There is only one exact value, and a word is given if it holds that.
    intro m same
    obtain rfl := Option.some.inj (same.symm.trans exact)
    rw [evaluated, inRange_iff_exists_word]
    simp [checked_eq_ok_iff]
  overflow := by
    intro m same
    obtain rfl := Option.some.inj (same.symm.trans exact)
    rw [evaluated, checked_eq_overflow_iff]

/-- An operator that refuses to divide by zero evaluates exactly. -/
theorem EvaluatesExactly.of_zero (divides : op = .div ∨ op = .rem) : op.EvaluatesExactly a 0 where
  zero := by
    -- The divisor is looked at before anything else.
    rcases divides with rfl | rfl <;> simp [evaluate]
  value := by
    -- By zero there is no exact value that could be given.
    intro m same
    rcases divides with rfl | rfl <;> cases same
  overflow := by
    intro m same
    rcases divides with rfl | rfl <;> cases same

/-- Where quotient and remainder have both been found, they make up the dividend. -/
theorem dividend_eq {q r : Int64} (quotient : Operator.div.evaluate (.int a) (.int b) = .ok (.int q))
    (remainder : Operator.rem.evaluate (.int a) (.int b) = .ok (.int r)) :
    a.toInt = q.toInt * b.toInt + r.toInt := by
  -- Both were computed, by the one rule there is for each operator.
  cases evaluate_eq_ok_iff.1 quotient with
  | div _ exact =>
    cases evaluate_eq_ok_iff.1 remainder with
    | rem _ _ rest => rw [exact, rest, Int.tdiv_mul_add_tmod]

/--
Integer operators evaluate exactly, but for one remainder.

The remainder of the least machine word by minus one is refused as an overflow, as its quotient is, although
it would be zero.
-/
theorem evaluate_exact (op : Operator) (integral : op ≠ .and ∧ op ≠ .or) (a b : Int64) :
    (¬ (op = .rem ∧ a = Int64.minValue ∧ b = -1) → op.EvaluatesExactly a b) ∧
    (op = .rem ∧ a = Int64.minValue ∧ b = -1 →
      op.evaluate (.int a) (.int b) = .error (.overflow op)) ∧
    ∀ q r : Int64, Operator.div.evaluate (.int a) (.int b) = .ok (.int q) →
      Operator.rem.evaluate (.int a) (.int b) = .ok (.int r) →
      a.toInt = q.toInt * b.toInt + r.toInt := by
  refine ⟨fun other => ?_, fun only => ?_, fun q r => dividend_eq⟩
  · cases op with
    -- Sums, differences and products are checked for their range and nothing else.
    | add => exact .of_checked rfl rfl
    | sub => exact .of_checked rfl rfl
    | mul => exact .of_checked rfl rfl
    | div =>
      by_cases zero : b = 0
      · subst zero
        exact .of_zero (.inl rfl)
      · exact .of_checked (if_neg (toInt_ne_zero zero)) (by simp only [evaluate, if_neg zero])
    | rem =>
      by_cases zero : b = 0
      · subst zero
        exact .of_zero (.inr rfl)
      · -- The quotient is in range, so nothing but the remainder itself is checked.
        have quotient : InRange (a.toInt.tdiv b.toInt) :=
          inRange_tdiv_iff.2 fun only => other ⟨rfl, only⟩
        obtain ⟨q, read⟩ := inRange_iff_exists_word.1 quotient
        refine .of_checked (if_neg (toInt_ne_zero zero)) ?_
        simp only [evaluate, if_neg zero, word?_eq_some_iff.2 read]
    | and => exact absurd rfl integral.1
    | or => exact absurd rfl integral.2
  · -- The quotient of the two leaves the machine range, which evaluation finds out first.
    obtain ⟨rfl, rfl, rfl⟩ := only
    rfl

/-- Minus seven by two leaves minus one, and the least machine word by minus one is refused. -/
theorem evaluate_exact_seven :
    Operator.rem.EvaluatesExactly (-7) 2 ∧
      Operator.rem.evaluate (.int Int64.minValue) (.int (-1)) = .error (.overflow .rem) ∧
      (-7 : Int64).toInt = (-3 : Int64).toInt * (2 : Int64).toInt + (-1 : Int64).toInt := by
  obtain ⟨exact, _, parts⟩ := evaluate_exact .rem ⟨nofun, nofun⟩ (-7) 2
  obtain ⟨_, refused, _⟩ := evaluate_exact .rem ⟨nofun, nofun⟩ Int64.minValue (-1)
  exact ⟨exact (by decide), refused ⟨rfl, rfl, rfl⟩, parts (-3) (-1) rfl rfl⟩

/-- The remainder of the least machine word by minus one is zero, and still it is refused as an overflow. -/
theorem remainder_not_exact : ¬ Operator.rem.EvaluatesExactly Int64.minValue (-1) := by
  intro exact
  -- Exactness would ask for an overflow only out of range, and zero is in range.
  exact (exact.overflow 0 rfl).1 rfl ⟨by decide, by decide⟩

end Operator

end Relational
