import Relational.Proofs.Goal.Finishing
import Relational.Proofs.State.Matching
import Relational.Proofs.State.Solving

/-! The arithmetic relations between numbers: which results they find, and which they refuse. -/

namespace Relational

variable {op : Operator} {e : EvalError} {a b : Int64}

/-- Two numbers under an operator have a value or none, and no variable either way. -/
theorem Term.closed_evaluated_int (op : Operator) (a b : Int64) :
    (Term.evaluated (.int a) op (.int b)).Closed := by
  have number : ∀ w : Int64, (Term.int w).Closed := fun w => ⟨rfl, reduced_of_isAtom rfl, .inl rfl⟩
  -- Numbers are closed, and so is what is computed from closed operands.
  exact (number a).evaluated (number b) op

/-- A closed operand is no variable. -/
theorem Term.Closed.ne_var {t : Term Var} (closed : t.Closed) (x : Var) : t ≠ .var x := by
  intro same
  have novars := closed.novars
  -- A variable has itself as a variable.
  rw [same] at novars
  cases novars

namespace State

variable {s : State} {t : Term Var} {x : Var}

/-- Two numbers under an operator stand for their value, or for themselves if there is none. -/
theorem walkStar_int (s : State) (a b : Int64) (op : Operator) :
    s.walkStar (.expr (.int a) op (.int b)) = .evaluated (.int a) op (.int b) := by
  have number : ∀ w : Int64, s.bindings.walkStar (.int w) = .int w := fun w =>
    Substitution.walkStar_of_isAtom _ rfl
  -- Numbers stand for themselves, so the operator is applied to them as they are.
  rw [walkStar, Substitution.walkStar_expr, number, number]

/--
An unknown that is unified with two numbers under an operator learns what there is to learn.

The unknown is bound before anything is evaluated, so the numbers need not have a value.
-/
theorem unify_int_learns (op : Operator) (a b : Int64) (tidy : s.Tidy)
    (unknown : s.walkStar t = .var x) (below : t.Below s.nextVar) :
    ∃ s', s.unify (.expr (.int a) op (.int b)) t = .singleton s' ∧
      s.Learns t (.evaluated (.int a) op (.int b)) s' := by
  have closed := Term.closed_evaluated_int op a b
  rw [← walkStar_int s] at closed ⊢
  have inside : (Term.expr (.int a) op (.int b)).Below s.nextVar :=
    Term.below_expr_iff.2 ⟨Value.below_term (.int a) _, Value.below_term (.int b) _⟩
  obtain ⟨depth, bound, _⟩ := exists_depthBound_eq s (.expr (.int a) op (.int b)) t
  rw [unify, bound]
  -- The unknown comes second here, and is bound all the same.
  refine unifyTurned_learns true tidy unknown below inside closed.ne_var ?_
  rw [closed.novars]
  exact List.not_mem_nil

/-- With both operands known and still no value there is nothing to solve. -/
theorem solve_int (unify : Unifier) (s : State) (a b : Int64) (op : Operator) (result : Term Var) :
    solve unify s (.int a) op (.int b) result = .empty := by
  -- The result may be an atom or not, and either way no operand is left to look for.
  simp [solve, isUnknown, Term.isVar, Term.asVar?, Term.isExpr]

/-- What is neither an unknown nor an expression does not come to stand for an expression. -/
theorem isExpr_walkStar (s : State) (noVar : t.isVar = false) (noExpr : t.isExpr = false) :
    (s.walkStar t).isExpr = false := by
  -- Resolving keeps the kind of a term that is neither.
  rw [walkStar, Substitution.walkStar_eq_resolve]
  cases t with
  | var x => cases noVar
  | expr l op r => cases noExpr
  | _ => rfl

/-- Numbers without a value under an operator are equal to nothing that is known. -/
theorem unify_int_of_error (failed : op.evaluate (.int a) (.int b) = .error e)
    (noVar : t.isVar = false) (noExpr : t.isExpr = false) :
    s.unify (.expr (.int a) op (.int b)) t = .empty := by
  have known : ∀ y, t ≠ .var y := by
    intro y same
    rw [same] at noVar
    cases noVar
  have left : s.walk (.expr (.int a) op (.int b)) = .expr (.int a) op (.int b) :=
    Substitution.walk_of_known _ nofun
  have right : s.walk t = t := Substitution.walk_of_known _ known
  have valueless : s.walkStar (.expr (.int a) op (.int b)) = .expr (.int a) op (.int b) := by
    rw [walkStar_int, Term.evaluated, failed]
  -- Neither side is to be bound, so both are resolved, and the expression stays what it is.
  have resolves : s.Resolves (.expr (.int a) op (.int b)) t := by
    refine ⟨?_, ?_, ?_⟩
    · rw [left]
      nofun
    · rwa [right]
    · rw [left]
      exact .inl rfl
  obtain ⟨depth, bound, _⟩ := exists_depthBound_eq s (.expr (.int a) op (.int b)) t
  have step : unifyTurned false (depth + 1) s (.expr (.int a) op (.int b)) t = _ :=
    unifyTurned_solve false resolves (by rw [left, valueless])
      (by rw [right, isExpr_walkStar s noVar noExpr])
  -- With two known operands there is nothing to solve for.
  rw [solve_int] at step
  rw [unify, bound]
  exact step

end State

namespace Goal

open Program

variable {rel : Term Name → Term Name → Term Name → Goal}

/-- The arithmetic relations, each with the operator it is about. -/
inductive Arithmetic : (Term Name → Term Name → Term Name → Goal) → Operator → Prop where
  | plus : Arithmetic pluso .add
  | minus : Arithmetic minuso .sub
  | times : Arithmetic timeso .mul
  | over : Arithmetic divo .div

/-- An arithmetic relation is an equation with an expression. -/
theorem Arithmetic.eq (arithmetic : Arithmetic rel op) (a b c : Term Name) :
    rel a b c = .eq (.expr a op b) c := by
  -- Each of the four relations is defined by its own operator.
  cases arithmetic <;> rfl

/-- Asked for the result, a relation gives one row, with whatever its operator makes of the numbers. -/
theorem Arithmetic.runsTo (arithmetic : Arithmetic rel op) (p : Program) (a b : Int64) :
    p.RunsTo ["q"] (rel (.int a) (.int b) (named "q"))
      [[.ofTerm (.evaluated (.int a) op (.int b))]] := by
  rw [arithmetic.eq]
  obtain ⟨later, unified, learns⟩ := State.unify_int_learns op a b (State.tidy_start 1)
    (State.walkStar_start 1 ⟨0⟩) (by decide : (Term.var ⟨0⟩).Below 1)
  have row : later.reifyAll (State.empty.freshVars 1).1 =
      [.ofTerm (.evaluated (.int a) op (.int b))] :=
    congrArg (fun term => [Answer.ofTerm term]) learns.value
  -- The search ends in that one state, and the row is read off there.
  rw [← row]
  refine Finishes.runsTo (finishes_eq ?_)
  exact unified

/-- A name or expression is not made of a term that is neither. -/
theorem instantiate_known {f : Name → Term Var} {c : Term Name} (noVar : c.isVar = false)
    (noExpr : c.isExpr = false) :
    (c.instantiate f).isVar = false ∧ (c.instantiate f).isExpr = false := by
  cases c with
  -- Only names and expressions are excluded; all others keep their kind.
  | var x => cases noVar
  | expr l op r => cases noExpr
  | _ => exact ⟨rfl, rfl⟩

/-- Where the operator has no value, a relation holds for no known result. -/
theorem Arithmetic.runsTo_nil (arithmetic : Arithmetic rel op) (p : Program) (names : List String)
    {c : Term Name} (failed : op.evaluate (.int a) (.int b) = .error e) (noVar : c.isVar = false)
    (noExpr : c.isExpr = false) : p.RunsTo names (rel (.int a) (.int b) c) [] := by
  rw [arithmetic.eq]
  -- Binding the tracked variables makes nothing unknown of a result that is known.
  obtain ⟨left, right⟩ := instantiate_known noVar noExpr
  refine Finishes.runsTo (finishes_eq_nil ?_)
  exact State.unify_int_of_error failed left right

/--
An arithmetic relation finds the value of its operator, but it does not fail where there is none.

Where the operator has a value, the relation gives it as the only row. Where the value overflows or the
divisor is zero, no known result is accepted. An unknown one is, and the row says nothing of it, because the
unknown is bound to the expression before the expression is evaluated.
-/
theorem arithmetic_runs (p : Program) (rel : Term Name → Term Name → Term Name → Goal) (op : Operator)
    (arithmetic : Arithmetic rel op) (a b : Int64) :
    (∀ c, op.evaluate (.int a) (.int b) = .ok c →
      p.RunsTo ["q"] (rel (.int a) (.int b) (named "q")) [[.ofTerm c]]) ∧
    ∀ e, op.evaluate (.int a) (.int b) = .error e →
      p.RunsTo ["q"] (rel (.int a) (.int b) (named "q")) [[.unknown]] ∧
      ∀ names c, c.isVar = false → c.isExpr = false → p.RunsTo names (rel (.int a) (.int b) c) [] := by
  -- The row is about the value if there is one, and else about the expression, of which nothing is known.
  have row := arithmetic.runsTo p a b
  rw [Term.evaluated] at row
  refine ⟨fun c value => ?_, fun e failed => ⟨?_, fun names c => arithmetic.runsTo_nil p names failed⟩⟩
  · rwa [value] at row
  · rwa [failed] at row

/-- Seven by two is three, and one by zero is not zero, but it is something unknown. -/
theorem arithmetic_runs_seven :
    Program.standard.RunsTo ["q"] (divo (.int 7) (.int 2) (named "q")) [[.int 3]] ∧
      Program.standard.RunsTo ["q"] (divo (.int 1) (.int 0) (named "q")) [[.unknown]] ∧
      Program.standard.RunsTo [] (divo (.int 1) (.int 0) (.int 0)) [] := by
  obtain ⟨value, _⟩ := arithmetic_runs .standard divo .div .over 7 2
  obtain ⟨_, failed⟩ := arithmetic_runs .standard divo .div .over 1 0
  -- The division fails with an error, and this decides the second and third run.
  obtain ⟨unknown, refused⟩ := failed .divisionByZero rfl
  exact ⟨value (.int 3) rfl, unknown, refused [] (.int 0) rfl rfl⟩

/-- One by zero has no value, and still the relation gives a row for it. -/
theorem divo_zero_gives_row :
    Operator.div.evaluate (.int 1) (.int 0) = .error .divisionByZero ∧
      ¬ Program.standard.RunsTo ["q"] (divo (.int 1) (.int 0) (named "q")) [] := by
  refine ⟨rfl, fun fails => ?_⟩
  -- A run does not end both with a row and without.
  cases fails.eq (Arithmetic.over.runsTo .standard 1 0)

end Goal

end Relational
