import Relational.Term.Text

/-! Forward evaluation of operators over machine integers, truth values and texts. -/

namespace Relational

/-- The machine word that holds an integer, if it is in the signed 64-bit range. -/
def word? (n : Int) : Option Int64 :=
  if -9223372036854775808 ≤ n ∧ n ≤ 9223372036854775807 then some (Int64.ofInt n) else none

/-- Why an operator gives no value, or cannot be run backwards. -/
inductive EvalError where
  /-- The operator is not defined for operands of these kinds. -/
  | typeMismatch (op : Operator) (lhs rhs : Term Var)
  /-- The divisor is zero. -/
  | divisionByZero
  /-- The exact value leaves the machine range. -/
  | overflow (op : Operator)
  /-- The operator has no inverse to search. -/
  | notInvertible (op : Operator)
  /-- Every value of the missing operand would do. -/
  | indeterminate (op : Operator)
  deriving DecidableEq

/-- The sentence that reports an evaluation error. -/
def EvalError.message : EvalError → String
  | .typeMismatch op lhs rhs =>
    "operator `" ++ op.symbol ++ "` is not defined for " ++ lhs.text ++ " and " ++ rhs.text
  | .divisionByZero => "division by zero"
  | .overflow op => "integer overflow in `" ++ op.symbol ++ "`"
  | .notInvertible op => "operator `" ++ op.symbol ++ "` cannot be inverted"
  | .indeterminate op =>
    "`" ++ op.symbol ++ "` has infinitely many solutions for the missing operand"

namespace Operator

/-- The integer term of an exact value, or an overflow if no machine word holds it. -/
def checked (op : Operator) (exact : Int) : Except EvalError (Term Var) :=
  match word? exact with
  | some w => .ok (.int w)
  | none => .error (.overflow op)

/--
The value of an operator on two operands.

Quotients are cut off toward zero, and a remainder has the sign of the dividend.
A remainder is refused as an overflow whenever its quotient is one.
-/
def evaluate (op : Operator) (lhs rhs : Term Var) : Except EvalError (Term Var) :=
  match op, lhs, rhs with
  | .add, .int a, .int b => checked op (a.toInt + b.toInt)
  | .add, .str a, .str b => .ok (.str (a ++ b))
  | .sub, .int a, .int b => checked op (a.toInt - b.toInt)
  | .mul, .int a, .int b => checked op (a.toInt * b.toInt)
  | .div, .int a, .int b =>
    if b = 0 then .error .divisionByZero else checked op (a.toInt.tdiv b.toInt)
  | .rem, .int a, .int b =>
    if b = 0 then .error .divisionByZero
    else match word? (a.toInt.tdiv b.toInt) with
      | some _ => checked op (a.toInt.tmod b.toInt)
      | none => .error (.overflow op)
  | .and, .bool a, .bool b => .ok (.bool (a && b))
  | .or, .bool a, .bool b => .ok (.bool (a || b))
  | _, _, _ => .error (.typeMismatch op lhs rhs)

end Operator

namespace Term

/-- The value of an expression, or the expression itself while it has none. -/
def evaluated (lhs : Term Var) (op : Operator) (rhs : Term Var) : Term Var :=
  match op.evaluate lhs rhs with
  | .ok value => value
  | .error _ => .expr lhs op rhs

/-- Replaces every variable by the term `f` gives for it, then evaluates what can be, inside out. -/
def resolve (f : Var → Term Var) : Term Var → Term Var
  | .var x => f x
  | .pair a d => .pair (a.resolve f) (d.resolve f)
  | .expr l op r => evaluated (l.resolve f) op (r.resolve f)
  | t => t

end Term

end Relational
