import Relational.State.Basic

/-! Answers: what is known of a term at the end of a search, without variables. -/

namespace Relational

/--
A value read off a finished search.

Whatever the search did not determine is `unknown`.
-/
inductive Answer where
  /-- The empty list. -/
  | nil
  | str (text : String)
  | int (value : Int64)
  | bool (value : Bool)
  /-- A list that ends in the empty list. -/
  | list (items : List Answer)
  /-- A list that ends in something else. -/
  | improper (items : List Answer) (tail : Answer)
  | unknown

/-- The answers for the tracked variables of a search, in their order. -/
abbrev Row := List Answer

namespace Answer

/-- The answer of a pair, from the answers of its components. -/
def cons (first : Answer) : Answer → Answer
  | .nil => .list [first]
  | .list items => .list (first :: items)
  | .improper items tail => .improper (first :: items) tail
  | tail => .improper [first] tail

/-- What a resolved term says. -/
def ofTerm : Term Var → Answer
  | .unit => .nil
  | .str s => .str s
  | .int i => .int i
  | .bool b => .bool b
  | .var _ | .expr .. => .unknown
  | .pair a d => (ofTerm a).cons (ofTerm d)

/-- The list of the given answers, where no answers make the empty list. -/
def ofItems : List Answer → Answer
  | [] => .nil
  | items => .list items

/-- Whether nothing is known. -/
def isUnknown : Answer → Bool
  | .unknown => true
  | _ => false

end Answer

namespace State

/-- What a state says about a term. -/
def reify (s : State) (t : Term Var) : Answer :=
  .ofTerm (s.walkStar t)

/-- What a state says about each of some terms. -/
def reifyAll (s : State) (terms : List (Term Var)) : Row :=
  terms.map s.reify

end State

end Relational
