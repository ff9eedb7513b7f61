import Relational.Term.Operator

/-! Terms: the values of relational programs, with lists built from pairs and deferred expressions. -/

namespace Relational

/--
A logic variable, told apart from every other by the number it was allocated under.
-/
structure Var where
  id : Nat
  deriving DecidableEq

/--
A term over variables of type `ν`.

A proper list is a chain of pairs that ends in `unit`, and an open list ends in a variable.
An expression keeps its operator unapplied until both operands are known.
-/
inductive Term (ν : Type) where
  | unit
  | str (text : String)
  | int (value : Int64)
  | bool (value : Bool)
  | var (x : ν)
  | pair (first rest : Term ν)
  | expr (lhs : Term ν) (op : Operator) (rhs : Term ν)
  deriving DecidableEq

namespace Term

variable {ν μ : Type}

/-- Texts, integers and truth values: what the operators work on. -/
def isAtom : Term ν → Bool
  | .str _ | .int _ | .bool _ => true
  | _ => false

/-- The variable a term is, if it is one. -/
def asVar? : Term ν → Option ν
  | .var x => some x
  | _ => none

/-- Whether a term is a variable. -/
def isVar (t : Term ν) : Bool :=
  t.asVar?.isSome

/-- Whether a term is an expression. -/
def isExpr : Term ν → Bool
  | .expr .. => true
  | _ => false

/-- The first component of a pair. -/
def first? : Term ν → Option (Term ν)
  | .pair a _ => some a
  | _ => none

/-- The second component of a pair. -/
def rest? : Term ν → Option (Term ν)
  | .pair _ d => some d
  | _ => none

/-- The chain of pairs that holds the given items and ends in `tail`. -/
def chain (items : List (Term ν)) (tail : Term ν) : Term ν :=
  items.foldr .pair tail

/-- The proper list of the given items. -/
def list (items : List (Term ν)) : Term ν :=
  chain items .unit

/--
The items of a chain of pairs, and the term that ends the chain.

A term that is no pair has no items and is its own end.
-/
def split : Term ν → List (Term ν) × Term ν
  | .pair a d => (a :: d.split.1, d.split.2)
  | t => ([], t)

/-- Replaces every variable by the term `f` gives for it. -/
def instantiate (f : ν → Term μ) : Term ν → Term μ
  | .unit => .unit
  | .str s => .str s
  | .int i => .int i
  | .bool b => .bool b
  | .var x => f x
  | .pair a d => .pair (a.instantiate f) (d.instantiate f)
  | .expr l op r => .expr (l.instantiate f) op (r.instantiate f)

/-- Renames every variable by `f`. -/
def map (f : ν → μ) (t : Term ν) : Term μ :=
  t.instantiate fun x => .var (f x)

/-- How many nodes a term has, leaves included. -/
def size : Term ν → Nat
  | .pair a d => a.size + d.size + 1
  | .expr l _ r => l.size + r.size + 1
  | _ => 1

/-- Every term has a node. -/
theorem one_le_size (t : Term ν) : 1 ≤ t.size := by
  cases t <;> simp [size]

end Term

end Relational
