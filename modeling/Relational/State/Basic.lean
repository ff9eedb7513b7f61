import Relational.Substitution

/-! Search states: the bindings made so far and the next unused variable. -/

namespace Relational

/-- A point of a search. -/
structure State where
  bindings : Substitution
  /-- The number the next fresh variable gets. -/
  nextVar : Nat
  deriving DecidableEq

namespace State

/-- The state a search starts from. -/
def empty : State :=
  ⟨.empty, 0⟩

/-- The next unused variable, and the state in which it is used. -/
def freshVar (s : State) : Var × State :=
  (⟨s.nextVar⟩, ⟨s.bindings, s.nextVar + 1⟩)

/-- The next `count` unused variables, in order, and the state in which they are used. -/
def freshVars (s : State) (count : Nat) : List (Term Var) × State :=
  ((List.range count).map fun i => .var ⟨s.nextVar + i⟩, ⟨s.bindings, s.nextVar + count⟩)

/-- Binds a variable. -/
def bind (s : State) (x : Var) (t : Term Var) : State :=
  ⟨s.bindings.extend x t, s.nextVar⟩

/-- What a term stands for, not looking inside it, unless its variables lead back to themselves. -/
def walk? (s : State) (t : Term Var) : Option (Term Var) :=
  s.bindings.walk? t

/-- What a term stands for, not looking inside it. -/
def walk (s : State) (t : Term Var) : Term Var :=
  s.bindings.walk t

/-- What a term stands for, resolved all the way through. -/
def walkStar (s : State) (t : Term Var) : Term Var :=
  s.bindings.walkStar t

/-- The bindings of a state, as a list of equations. -/
def text (s : State) : String :=
  let equations := s.bindings.toList.map fun (x, t) =>
    "." ++ toString x.id ++ " = " ++ t.text
  "[" ++ ", ".intercalate equations ++ "]"

/-- The bindings and the counter of a state, as a record. -/
def recordText (s : State) : String :=
  "State \x7b subs: " ++ s.bindings.text ++ ", next_var: " ++ toString s.nextVar ++ " \x7d"

end State

end Relational
