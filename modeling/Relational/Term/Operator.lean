/-! The binary operators a deferred expression may apply, and the symbols they are written with. -/

namespace Relational

/--
The operators of deferred expressions.

The first five work on integers, the last two on truth values.
Addition also joins texts.
-/
inductive Operator where
  | add
  | sub
  | mul
  | div
  | rem
  | and
  | or
  deriving DecidableEq

/-- The symbol an operator is written with between its operands. -/
def Operator.symbol : Operator → String
  | .add => "+"
  | .sub => "-"
  | .mul => "*"
  | .div => "/"
  | .rem => "%"
  | .and => "&&"
  | .or => "||"

/-- The operator a symbol stands for, if it is the symbol of one. -/
def Operator.ofSymbol? : String → Option Operator
  | "+" => some .add
  | "-" => some .sub
  | "*" => some .mul
  | "/" => some .div
  | "%" => some .rem
  | "&&" => some .and
  | "||" => some .or
  | _ => none

/-- Reading a written symbol gives the operator back, so no two operators share a symbol. -/
theorem Operator.ofSymbol?_symbol (op : Operator) : ofSymbol? op.symbol = some op := by
  -- Seven operators, each checked against the table of symbols.
  cases op <;> rfl

end Relational
