import Relational.Arithmetic.Candidates
import Relational.State.Basic
import Relational.Stream.Finite

/-! Unification: every way of making two terms equal, with expressions solved for one unknown. -/

namespace Relational.State

/-- A way to unify two terms in a state. -/
abbrev Unifier := State → Term Var → Term Var → Stream Empty State

/-- An operand that is still to be found: a variable or an expression over one. -/
def isUnknown (t : Term Var) : Bool :=
  t.isVar || t.isExpr

/-- Unifies an operand with each candidate for it in turn. -/
def tryCandidates (unify : Unifier) (s : State) (operand : Term Var) :
    Except EvalError (LazyList (Term Var)) → Stream Empty State
  | .ok candidates => candidates.flatMap fun candidate => unify s operand candidate
  | .error _ => .empty

/--
Makes the resolved expression `lhs op rhs` equal to a resolved `result`.

The result has to be an atom and exactly one operand unknown.
-/
def solve (unify : Unifier) (s : State) (lhs : Term Var) (op : Operator) (rhs result : Term Var) :
    Stream Empty State :=
  if result.isAtom then
    match isUnknown lhs, isUnknown rhs with
    | true, false => tryCandidates unify s lhs (op.solveLhs rhs result)
    | false, true => tryCandidates unify s rhs (op.solveRhs lhs result)
    -- With no unknown the expression has no value, and two unknowns determine neither.
    | false, false | true, true => .empty
  else .empty

/-- Unifies two resolved terms, at least one of which was an expression. -/
def unifyResolved (unify : Unifier) (s : State) : Term Var → Term Var → Stream Empty State
  | .expr l op r, .expr l' op' r' =>
    if op = op' then (unify s l l').flatMap fun s' => unify s' r r' else .empty
  | .expr l op r, result => solve unify s l op r result
  | result, .expr l op r => solve unify s l op r result
  | u, v => unify s u v

/--
Unifies two walked terms, and what is inside them by `unify`.

A variable is bound to whatever is on the other side, and the left one of two.
-/
def unifyWalked (unify : Unifier) (s : State) : Term Var → Term Var → Stream Empty State
  | .var x, .var y => .singleton (if x = y then s else s.bind x (.var y))
  | .var x, v => .singleton (s.bind x v)
  | u, .var y => .singleton (s.bind y u)
  | .pair a d, .pair a' d' => (unify s a a').flatMap fun s' => unify s' d d'
  | u, v =>
    if u.isExpr || v.isExpr then unifyResolved unify s (s.walkStar u) (s.walkStar v)
    else if u = v then .singleton s
    else .empty

/-- Unifies two terms through at most `depth` nested steps. -/
def unifyWithin : (depth : Nat) → Unifier
  | 0, _, _, _ => .empty
  | depth + 1, s, u, v =>
    match s.walk? u, s.walk? v with
    | some u, some v => unifyWalked (unifyWithin depth) s u v
    -- A walk that never ends leads to nothing that could be compared.
    | _, _ => .empty

/--
A depth no unification that ends can exceed.

Between two new bindings a nested step never meets the same two subterms again.
-/
def depthBound (s : State) (u v : Term Var) : Nat :=
  let size := s.bindings.weight + u.size + v.size + 2
  size * size * size

/--
Every way of making two terms equal in a state.

Terms without expressions have at most one.
There is no occurs check, so a variable may come to stand for a term that contains it.
-/
def unify (s : State) (u v : Term Var) : Stream Empty State :=
  unifyWithin (s.depthBound u v) s u v

/-- The state itself if two terms cannot be made equal in it, and nothing if they can. -/
def disunify (s : State) (u v : Term Var) : Stream Empty State :=
  match (s.unify u v).first? with
  | none => .singleton s
  | some _ => .empty

end Relational.State
