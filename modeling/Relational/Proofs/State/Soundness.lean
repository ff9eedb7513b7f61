import Relational.Proofs.State.Unification

/-! Unified terms stand for the same thing, in the state found and in every state that comes of it. -/

namespace Relational

/-- An expression stands for what is computed from what its operands stand for. -/
theorem Operator.Computes.walkStar_expr {op : Operator} {a b result lhs rhs : Term Var}
    {σ : Substitution} (computes : op.Computes a b result) (left : σ.walkStar lhs = a)
    (right : σ.walkStar rhs = b) : σ.walkStar (.expr lhs op rhs) = σ.walkStar result := by
  -- The result is an atom, so it stands for itself.
  obtain ⟨_, _, resultAtom⟩ := computes.isAtom
  rw [Substitution.walkStar_expr, left, right, σ.walkStar_of_isAtom resultAtom, Term.evaluated,
    Operator.evaluate_eq_ok_iff.2 computes]

/-- An operand that stands for its candidate makes the expression stand for the result. -/
theorem Operator.Completes.walkStar_expr {op : Operator}
    {lhs rhs result operand candidate : Term Var} {σ : Substitution}
    (completes : op.Completes lhs rhs result operand candidate)
    (found : σ.walkStar operand = σ.walkStar candidate) :
    σ.walkStar (.expr lhs op rhs) = σ.walkStar result := by
  -- The known operand and the candidate are atoms, so both stand for themselves.
  cases completes with
  | left computes =>
    obtain ⟨candidateAtom, knownAtom, _⟩ := computes.isAtom
    exact computes.walkStar_expr (found.trans (σ.walkStar_of_isAtom candidateAtom))
      (σ.walkStar_of_isAtom knownAtom)
  | right computes =>
    obtain ⟨knownAtom, candidateAtom, _⟩ := computes.isAtom
    exact computes.walkStar_expr (σ.walkStar_of_isAtom knownAtom)
      (found.trans (σ.walkStar_of_isAtom candidateAtom))

namespace State

variable {s s' : State} {u v : Term Var} {σ : Substitution}

/-- A variable bound to a term stands for what the term stands for, wherever the binding is kept. -/
theorem walkStar_bind {x : Var} {t : Term Var} (acyclic : σ.Acyclic)
    (keeps : σ.Extends (s.bind x t).bindings) : σ.walkStar (.var x) = σ.walkStar t := by
  -- The binding is still there, so the variable is resolved through it.
  refine Substitution.walkStar_var_of_bound acyclic (keeps x t ?_)
  rw [bind, Substitution.get?_extend, if_pos rfl]

/--
Unified terms are resolved to the same term by every acyclic substitution that keeps the bindings.

The induction is on the derivation, and each rule only adds bindings to those of the earlier ones.
-/
theorem Unifies.walkStar_eq (unified : Unifies s u v s') (acyclic : σ.Acyclic)
    (keeps : σ.Extends s'.bindings) : σ.walkStar u = σ.walkStar v := by
  -- Walking or resolving a term first does not change what it stands for in the end.
  have walked : ∀ {s : State}, σ.Extends s.bindings → ∀ t, σ.walkStar (s.walk t) = σ.walkStar t :=
    fun keeps t => Substitution.walkStar_walk acyclic keeps t
  have resolved : ∀ {s : State}, σ.Extends s.bindings → ∀ t,
      σ.walkStar (s.walkStar (s.walk t)) = σ.walkStar t :=
    fun keeps t => (Substitution.walkStar_walkStar acyclic keeps _).trans (walked keeps t)
  induction unified with
  -- By induction on the derivation, one rule at a time.
  | same equal => rw [← walked keeps, equal, walked keeps]
  | bindLeft left free _ =>
    -- The new binding alone makes both sides the same.
    have before := keeps.trans (Substitution.extends_extend free _)
    rw [← walked before, left, walkStar_bind acyclic keeps, walked before]
  | bindRight right free _ =>
    have before := keeps.trans (Substitution.extends_extend free _)
    rw [← walked before, ← walkStar_bind acyclic keeps, ← right, walked before]
  | @pairs _ _ _ u v a d a' d' left right first rest firstEqual restEqual =>
    -- Bindings made for the first components are kept while the others are unified.
    have between := keeps.trans rest.extends
    have before := between.trans first.extends
    calc σ.walkStar u = σ.walkStar (.pair a d) := by rw [← left, walked before]
      _ = σ.walkStar (.pair a' d') := by
        rw [Substitution.walkStar_pair, Substitution.walkStar_pair, firstEqual between,
          restEqual keeps]
      _ = σ.walkStar v := by rw [← right, walked before]
  | @exprs _ _ _ u v l r l' r' op left right first rest firstEqual restEqual =>
    have between := keeps.trans rest.extends
    have before := between.trans first.extends
    calc σ.walkStar u = σ.walkStar (.expr l op r) := by rw [← left, resolved before]
      _ = σ.walkStar (.expr l' op r') := by
        rw [Substitution.walkStar_expr, Substitution.walkStar_expr, firstEqual between,
          restEqual keeps]
      _ = σ.walkStar v := by rw [← right, resolved before]
  -- A solved operand stands for its candidate, and the expression then for the result.
  | solveLeft left completes rest restEqual =>
    -- The operand was solved for the candidate, and the bindings for this are all kept.
    have before := keeps.trans rest.extends
    rw [← resolved before, left, completes.walkStar_expr (restEqual keeps), resolved before]
  | solveRight right completes rest restEqual =>
    have before := keeps.trans rest.extends
    rw [← resolved before, ← completes.walkStar_expr (restEqual keeps), ← right, resolved before]
  | values rest restEqual =>
    -- Both sides were replaced by what they stand for, and that is what they stand for now.
    have before := keeps.trans rest.extends
    rw [← resolved before, restEqual keeps, resolved before]

/--
Unification with deferred expressions is sound.

In every state found without a cycle both terms are resolved to the same term, and no binding made
later can tell them apart again.
-/
theorem unify_walkStar_eq {s s' : State} {u v : Term Var}
    (reached : Stream.Reached Stream.noJobs s' (s.unify u v)) (acyclic : s'.bindings.Acyclic) :
    s'.walkStar u = s'.walkStar v ∧
      ∀ σ : Substitution, σ.Extends s'.bindings → σ.Acyclic → σ.walkStar u = σ.walkStar v := by
  -- The state found keeps its own bindings, as every extension of it does.
  have unified := unifies_of_reached reached
  refine ⟨unified.walkStar_eq acyclic (.refl _), fun σ keeps acyclic => ?_⟩
  exact unified.walkStar_eq acyclic keeps

/-- Half of a number times three is nine for two numbers, and the second one found is seven. -/
theorem unify_walkStar_eq_seven :
    Stream.Reached Stream.noJobs (State.empty.bind ⟨0⟩ (.int 7))
      (State.empty.unify (.expr (.expr (.var ⟨0⟩) .div (.int 2)) .mul (.int 3)) (.int 9)) ∧
    (State.empty.bind ⟨0⟩ (.int 7)).bindings.Acyclic ∧
    (State.empty.bind ⟨0⟩ (.int 7)).walkStar
        (.expr (.expr (.var ⟨0⟩) .div (.int 2)) .mul (.int 3)) =
      (State.empty.bind ⟨0⟩ (.int 7)).walkStar (.int 9) := by
  have reached : Stream.Reached Stream.noJobs (State.empty.bind ⟨0⟩ (.int 7))
      (State.empty.unify (.expr (.expr (.var ⟨0⟩) .div (.int 2)) .mul (.int 3)) (.int 9)) :=
    -- The state is found among the members by running the unification.
    Stream.reached_noJobs_iff.2 (by decide)
  have acyclic : (State.empty.bind ⟨0⟩ (.int 7)).bindings.Acyclic :=
    Substitution.acyclic_empty.extend_of_isAtom rfl
  exact ⟨reached, acyclic, (unify_walkStar_eq reached acyclic).1⟩

end State

end Relational
