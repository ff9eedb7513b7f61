import Relational.Arithmetic.Evaluate

/-! Forward evaluation as a relation: which operands have a value, and which value it is. -/

namespace Relational

/-- A machine word holds an integer exactly when it reads as that integer. -/
theorem word?_eq_some_iff {n : Int} {w : Int64} : word? n = some w ↔ w.toInt = n := by
  -- Every word reads as an integer between the two bounds that the test compares with.
  have least := w.le_toInt
  have greatest := w.toInt_lt
  unfold word?
  constructor
  · intro found
    split at found
    · rename_i inRange
      obtain rfl := Option.some.inj found
      -- In range, making a word of an integer and reading it back loses nothing.
      exact Int64.toInt_ofInt_of_le (by omega) (by omega)
    · cases found
  · intro read
    subst read
    rw [if_pos (by omega), Int64.ofInt_toInt]

/-- No machine word holds an integer outside the range. -/
theorem word?_eq_none_iff {n : Int} : word? n = none ↔ ∀ w : Int64, w.toInt ≠ n := by
  -- To find no word is to find none of the words in particular.
  rw [Option.eq_none_iff_forall_ne_some]
  simp only [ne_eq, word?_eq_some_iff]

/-- Zero is the only machine word that reads as zero. -/
theorem toInt_ne_zero {w : Int64} (nonzero : w ≠ 0) : w.toInt ≠ 0 := by
  -- Words that read as the same integer are the same word.
  intro zero
  exact nonzero (Int64.toInt_inj.1 zero)

namespace Operator

/--
An operator has a value on two operands.

Integer results are exact, so a value that no machine word holds is no value.
-/
inductive Computes : Operator → Term Var → Term Var → Term Var → Prop where
  | add {a b c : Int64} (exact : c.toInt = a.toInt + b.toInt) :
      Computes .add (.int a) (.int b) (.int c)
  | join {a b : String} : Computes .add (.str a) (.str b) (.str (a ++ b))
  | sub {a b c : Int64} (exact : c.toInt = a.toInt - b.toInt) :
      Computes .sub (.int a) (.int b) (.int c)
  | mul {a b c : Int64} (exact : c.toInt = a.toInt * b.toInt) :
      Computes .mul (.int a) (.int b) (.int c)
  | div {a b c : Int64} (nonzero : b ≠ 0) (exact : c.toInt = a.toInt.tdiv b.toInt) :
      Computes .div (.int a) (.int b) (.int c)
  /-- The quotient has to be in range as well, although it is not the result. -/
  | rem {a b c q : Int64} (nonzero : b ≠ 0) (quotient : q.toInt = a.toInt.tdiv b.toInt)
      (exact : c.toInt = a.toInt.tmod b.toInt) : Computes .rem (.int a) (.int b) (.int c)
  | and {a b : Bool} : Computes .and (.bool a) (.bool b) (.bool (a && b))
  | or {a b : Bool} : Computes .or (.bool a) (.bool b) (.bool (a || b))

/-- A checked result is the integer term of the exact value. -/
theorem checked_eq_ok_iff {op : Operator} {exact : Int} {t : Term Var} :
    checked op exact = .ok t ↔ ∃ w : Int64, t = .int w ∧ w.toInt = exact := by
  unfold checked
  cases held : word? exact with
  | none =>
    -- Nothing reads as an exact value that is out of range.
    have beyond := word?_eq_none_iff.1 held
    simp only [reduceCtorEq, false_iff]
    intro found
    obtain ⟨w, _, read⟩ := found
    exact beyond w read
  | some w =>
    -- At most one word reads as the exact value, so the result is that word and no other.
    have read := word?_eq_some_iff.1 held
    constructor
    · intro result
      cases result
      exact ⟨w, rfl, read⟩
    · intro found
      obtain ⟨other, rfl, same⟩ := found
      rw [Int64.toInt_inj.1 (same.trans read.symm)]

/-- Evaluation succeeds with a result exactly when the operator computes it. -/
theorem evaluate_eq_ok_iff {op : Operator} {lhs rhs result : Term Var} :
    op.evaluate lhs rhs = .ok result ↔ op.Computes lhs rhs result := by
  constructor
  · intro evaluated
    -- Each branch that succeeds is one rule, and the branch has checked its conditions.
    unfold evaluate at evaluated
    split at evaluated
    · obtain ⟨c, rfl, exact⟩ := checked_eq_ok_iff.1 evaluated
      exact .add exact
    · -- Texts are joined without any check.
      cases evaluated
      exact .join
    · obtain ⟨c, rfl, exact⟩ := checked_eq_ok_iff.1 evaluated
      exact .sub exact
    · obtain ⟨c, rfl, exact⟩ := checked_eq_ok_iff.1 evaluated
      exact .mul exact
    · split at evaluated
      · -- Nothing is divided by zero.
        cases evaluated
      · rename_i nonzero
        obtain ⟨c, rfl, exact⟩ := checked_eq_ok_iff.1 evaluated
        exact .div nonzero exact
    · split at evaluated
      · -- There is no remainder by zero, either.
        cases evaluated
      · rename_i nonzero
        split at evaluated
        · -- A remainder is given only after the quotient was found to be in range.
          rename_i held
          obtain ⟨c, rfl, exact⟩ := checked_eq_ok_iff.1 evaluated
          exact .rem nonzero (word?_eq_some_iff.1 held) exact
        · cases evaluated
    · cases evaluated
      exact .and
    · cases evaluated
      exact .or
    · -- Operands of other kinds have no value.
      cases evaluated
  · intro computes
    -- Every rule fixes the kinds of its operands, so evaluation takes the matching branch.
    cases computes with
    | add exact => exact checked_eq_ok_iff.2 ⟨_, rfl, exact⟩
    | join => rfl
    | sub exact => exact checked_eq_ok_iff.2 ⟨_, rfl, exact⟩
    | mul exact => exact checked_eq_ok_iff.2 ⟨_, rfl, exact⟩
    | div nonzero exact =>
      simp only [evaluate, if_neg nonzero]
      exact checked_eq_ok_iff.2 ⟨_, rfl, exact⟩
    | rem nonzero quotient exact =>
      simp only [evaluate, if_neg nonzero, word?_eq_some_iff.2 quotient]
      exact checked_eq_ok_iff.2 ⟨_, rfl, exact⟩
    | and => rfl
    | or => rfl

/-- Operands and results of a computation are atoms. -/
theorem Computes.isAtom {op : Operator} {lhs rhs result : Term Var}
    (computes : op.Computes lhs rhs result) :
    lhs.isAtom = true ∧ rhs.isAtom = true ∧ result.isAtom = true := by
  -- No rule speaks of variables, pairs or expressions.
  cases computes <;> exact ⟨rfl, rfl, rfl⟩

end Operator

end Relational
