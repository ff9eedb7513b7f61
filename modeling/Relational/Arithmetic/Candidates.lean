import Relational.Arithmetic.Evaluate
import Relational.LazyList

/-! Operators run backwards: every value of a missing operand that gives a wanted result. -/

namespace Relational

/-- The one solution of an equation that has a single exact solution, or an overflow. -/
def exactCandidate (op : Operator) (exact : Int) : Except EvalError (LazyList (Term Var)) :=
  match word? exact with
  | some w => .ok (.single (.int w))
  | none => .error (.overflow op)

/-- Solutions of `x * factor = product`. -/
def factorCandidates (op : Operator) (product factor : Int64) :
    Except EvalError (LazyList (Term Var)) :=
  if factor = 0 then
    -- Zero times anything is zero, and never anything else.
    if product = 0 then .error (.indeterminate op) else .ok .nil
  else
    match word? (product.toInt.tdiv factor.toInt) with
    | some quotient =>
      .ok (if product.toInt.tmod factor.toInt = 0 then .single (.int quotient) else .nil)
    | none => .error (.overflow op)

/-- The offsets `0, 1, -1, 2, -2, …`: increasing distance, the larger of two equals first. -/
def nearOffset (i : Nat) : Int :=
  if i % 2 = 0 then -((i / 2 : Nat) : Int) else ((i / 2 + 1 : Nat) : Int)

/-- The dividend at an offset from the base, if it is in range and gives the quotient back. -/
def dividend? (divisor quotient base : Int64) (i : Nat) : Option (Term Var) :=
  match word? (base.toInt + nearOffset i) with
  | some x => if x.toInt.tdiv divisor.toInt = quotient.toInt then some (.int x) else none
  | none => none

/--
Solutions of `x / divisor = quotient` for a divisor other than zero, nearest to the product first.

Truncation keeps every solution closer to the product than the divisor's magnitude.
-/
def dividendCandidates (divisor quotient : Int64) : LazyList (Term Var) :=
  match word? (quotient.toInt * divisor.toInt) with
  | some base =>
    .scan (dividend? divisor quotient base) (2 * (divisor.toInt.natAbs - 1) + 1) 0
  | none => .nil

/-- The divisor of a magnitude, if it is in range and gives the quotient. -/
def divisor? (dividend quotient : Int64) (magnitude : Nat) : Option (Term Var) :=
  -- The divisor is negative exactly when the signs of dividend and quotient differ.
  match word? (if dividend < 0 ↔ quotient < 0 then (magnitude : Int) else -(magnitude : Int)) with
  | some x => if dividend.toInt.tdiv x.toInt = quotient.toInt then some (.int x) else none
  | none => none

/-- The least magnitude a divisor can have. -/
def leastDivisor (dividend quotient : Int64) : Nat :=
  dividend.toInt.natAbs / (quotient.toInt.natAbs + 1) + 1

/-- The greatest magnitude a divisor can have. -/
def greatestDivisor (dividend quotient : Int64) : Nat :=
  dividend.toInt.natAbs / quotient.toInt.natAbs

/-- Solutions of `dividend / x = quotient` for a quotient other than zero, by increasing magnitude. -/
def divisorCandidates (dividend quotient : Int64) : LazyList (Term Var) :=
  let least := leastDivisor dividend quotient
  .scan (divisor? dividend quotient) (greatestDivisor dividend quotient + 1 - least) least

/-- The truth values that satisfy a condition, `false` before `true`. -/
def boolCandidates (holds : Bool → Bool) : LazyList (Term Var) :=
  .ofList (([false, true].filter holds).map .bool)

/-- The text that is left of `whole` when `suffix` is taken off its end. -/
def withoutSuffix (suffix whole : String) : LazyList (Term Var) :=
  match suffix.toList.isSuffixOf? whole.toList with
  | some front => .single (.str (.ofList front))
  | none => .nil

/-- The text that is left of `whole` when `front` is taken off its start. -/
def withoutFront (front whole : String) : LazyList (Term Var) :=
  match front.toList.isPrefixOf? whole.toList with
  | some back => .single (.str (.ofList back))
  | none => .nil

namespace Operator

/-- The values of the left operand that give `result` with `rhs` on the right. -/
def solveLhs (op : Operator) (rhs result : Term Var) : Except EvalError (LazyList (Term Var)) :=
  match op, rhs, result with
  | .add, .int b, .int r => exactCandidate op (r.toInt - b.toInt)
  | .add, .str b, .str r => .ok (withoutSuffix b r)
  | .sub, .int b, .int r => exactCandidate op (r.toInt + b.toInt)
  | .mul, .int b, .int r => factorCandidates op r b
  | .div, .int b, .int r =>
    if b = 0 then .error .divisionByZero else .ok (dividendCandidates b r)
  | .rem, _, _ => .error (.notInvertible op)
  | .and, .bool b, .bool r => .ok (boolCandidates fun x => (x && b) == r)
  | .or, .bool b, .bool r => .ok (boolCandidates fun x => (x || b) == r)
  | _, _, _ => .error (.typeMismatch op rhs result)

/-- The values of the right operand that give `result` with `lhs` on the left. -/
def solveRhs (op : Operator) (lhs result : Term Var) : Except EvalError (LazyList (Term Var)) :=
  match op, lhs, result with
  | .add, .int a, .int r => exactCandidate op (r.toInt - a.toInt)
  | .add, .str a, .str r => .ok (withoutFront a r)
  | .sub, .int a, .int r => exactCandidate op (a.toInt - r.toInt)
  | .mul, .int a, .int r => factorCandidates op r a
  | .div, .int a, .int r =>
    -- Every divisor beyond the dividend gives zero.
    if r = 0 then .error (.indeterminate op) else .ok (divisorCandidates a r)
  | .rem, _, _ => .error (.notInvertible op)
  | .and, .bool a, .bool r => .ok (boolCandidates fun x => (a && x) == r)
  | .or, .bool a, .bool r => .ok (boolCandidates fun x => (a || x) == r)
  | _, _, _ => .error (.typeMismatch op lhs result)

end Operator

end Relational
