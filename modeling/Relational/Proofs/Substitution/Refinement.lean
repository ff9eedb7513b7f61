import Relational.Proofs.Substitution.Vocabulary

/-! Refinement: a resolved term is settled as far as the bindings go, and later bindings only refine it. -/

namespace Relational

namespace Term

/-- No expression inside a term has a value. -/
def Reduced (t : Term Var) : Prop :=
  ∀ l op r, .expr l op r ∈ t.subterms → ∀ value, op.evaluate l r ≠ .ok value

/-- A pair is reduced if both components are. -/
@[simp] theorem reduced_pair_iff {a d : Term Var} :
    (Term.pair a d).Reduced ↔ a.Reduced ∧ d.Reduced := by
  -- The pair itself is no expression, so only its parts matter.
  simp only [Reduced, subterms, List.mem_cons, List.mem_append, reduceCtorEq, false_or, or_imp,
    forall_and]

/-- An expression is reduced if both operands are and it has no value itself. -/
@[simp] theorem reduced_expr_iff {l r : Term Var} {op : Operator} :
    (Term.expr l op r).Reduced ↔
      (∀ value, op.evaluate l r ≠ .ok value) ∧ l.Reduced ∧ r.Reduced := by
  constructor
  · intro reduced
    -- The parts of an operand are parts of the expression.
    refine ⟨reduced l op r List.mem_cons_self, fun l' op' r' part => ?_, fun l' op' r' part => ?_⟩
    · exact reduced l' op' r' (List.mem_cons_of_mem _ (List.mem_append_left _ part))
    · exact reduced l' op' r' (List.mem_cons_of_mem _ (List.mem_append_right _ part))
  · rintro ⟨here, left, right⟩ l' op' r' part
    -- An expression inside is the whole one, or stands in one of the operands.
    rcases List.mem_cons.1 part with same | deeper
    · cases same
      exact here
    · rcases List.mem_append.1 deeper with inLeft | inRight
      · exact left l' op' r' inLeft
      · exact right l' op' r' inRight

/-- A term without parts is reduced. -/
theorem reduced_of_leaf {t : Term Var} (alone : t.subterms = [t]) (notExpr : t.isExpr = false) :
    t.Reduced := by
  intro l op r part
  -- The only part is the term itself, which is no expression.
  rw [alone, List.mem_singleton] at part
  rw [← part] at notExpr
  cases notExpr

/-- An atom is reduced. -/
theorem reduced_of_isAtom {t : Term Var} (atom : t.isAtom = true) : t.Reduced := by
  -- Atoms have no parts but themselves; what is no atom is excluded.
  cases t with
  | str _ | int _ | bool _ => exact reduced_of_leaf rfl rfl
  | _ => cases atom

/-- Resolving a term by reduced terms leaves no expression with a value. -/
theorem reduced_resolve {f : Var → Term Var} {t : Term Var}
    (values : ∀ x ∈ t.vars, (f x).Reduced) : (t.resolve f).Reduced := by
  induction t with
  -- By induction on the term; the values of the variables are reduced by assumption.
  | var x => exact values x (List.mem_singleton.2 rfl)
  | pair a d first rest =>
    rw [resolve, reduced_pair_iff]
    exact ⟨first fun x occurs => values x (List.mem_append_left _ occurs),
      rest fun x occurs => values x (List.mem_append_right _ occurs)⟩
  | expr l op r left right =>
    have lhs := left fun x occurs => values x (List.mem_append_left _ occurs)
    have rhs := right fun x occurs => values x (List.mem_append_right _ occurs)
    rw [resolve, evaluated]
    cases value : op.evaluate (l.resolve f) (r.resolve f) with
    | ok result =>
      -- A value is an atom, with no expression left in it.
      exact reduced_of_isAtom (Operator.evaluate_eq_ok_iff.1 value).isAtom.2.2
    | error e =>
      -- The expression that is left is the one whose evaluation has just failed.
      refine reduced_expr_iff.2 ⟨fun result computed => ?_, lhs, rhs⟩
      rw [value] at computed
      cases computed
  | _ => exact reduced_of_leaf rfl rfl

/-- A reduced term is left as it is when every variable of it stands for itself. -/
theorem Reduced.resolve_eq {f : Var → Term Var} {t : Term Var} (reduced : t.Reduced)
    (same : ∀ x ∈ t.vars, f x = .var x) : t.resolve f = t := by
  induction t with
  | var x => exact same x (List.mem_singleton.2 rfl)
  | pair a d first rest =>
    obtain ⟨left, right⟩ := reduced_pair_iff.1 reduced
    -- The components are reduced themselves, and have no other variables.
    rw [resolve, first left fun x occurs => same x (List.mem_append_left _ occurs),
      rest right fun x occurs => same x (List.mem_append_right _ occurs)]
  | expr l op r left right =>
    obtain ⟨stuck, lhs, rhs⟩ := reduced_expr_iff.1 reduced
    rw [resolve, left lhs fun x occurs => same x (List.mem_append_left _ occurs),
      right rhs fun x occurs => same x (List.mem_append_right _ occurs), evaluated]
    -- The expression had no value before, and its operands are the same now.
    cases value : op.evaluate l r with
    | ok result => exact absurd value (stuck result)
    | error e => rfl
  | _ => rfl

end Term

namespace Substitution

variable {s s' : Substitution} {t : Term Var} {x : Var}

/-- A term has no bound variable, and no expression that has a value. -/
structure Resolved (s : Substitution) (t : Term Var) : Prop where
  free : ∀ x ∈ t.vars, s.get? x = none
  reduced : t.Reduced

/-- A resolved term is resolved to itself. -/
theorem Resolved.walkStar_eq (resolved : s.Resolved t) : s.walkStar t = t := by
  -- All variables are free, so each of them stands for itself.
  rw [walkStar_eq_resolve]
  exact resolved.reduced.resolve_eq fun x occurs => walkStar_of_free (resolved.free x occurs)

/-- The operands of a resolved expression are resolved. -/
theorem Resolved.operands {l r : Term Var} {op : Operator} (resolved : s.Resolved (.expr l op r)) :
    s.Resolved l ∧ s.Resolved r := by
  obtain ⟨_, left, right⟩ := Term.reduced_expr_iff.1 resolved.reduced
  -- Every variable of an operand is a variable of the expression, so it is free.
  exact ⟨⟨fun x occurs => resolved.free x (List.mem_append_left _ occurs), left⟩,
    fun x occurs => resolved.free x (List.mem_append_right _ occurs), right⟩

/-- Resolving a term by resolved terms gives a resolved term. -/
theorem resolved_resolve {f : Var → Term Var} (values : ∀ x ∈ t.vars, s.Resolved (f x)) :
    s.Resolved (t.resolve f) where
  free := by
    intro y occurs
    -- A variable of the result comes from the value of a variable of the term.
    obtain ⟨x, member, there⟩ := Term.exists_mem_vars_of_resolve occurs
    exact (values x member).free y there
  reduced := Term.reduced_resolve fun x member => (values x member).reduced

/-- A free variable is resolved. -/
theorem resolved_of_free (free : s.get? x = none) : s.Resolved (.var x) where
  free := by
    intro y occurs
    -- It is the only variable of the term.
    rw [List.mem_singleton.1 occurs]
    exact free
  reduced := Term.reduced_of_leaf rfl rfl

/-- What a term stands for in an acyclic substitution is resolved. -/
theorem Acyclic.resolved_walkStar (acyclic : s.Acyclic) (t : Term Var) :
    s.Resolved (s.walkStar t) := by
  -- The induction is on the ways from a variable, not on the term: a binding may lead to a larger term.
  have ofVar : ∀ x, s.Grounded x → s.Resolved (s.walkStar (.var x)) := by
    intro x grounded
    induction grounded with
    | intro x lower ih =>
      cases bound : s.get? x with
      | none =>
        rw [walkStar_of_free bound]
        exact resolved_of_free bound
      | some u =>
        rw [walkStar_var_of_bound acyclic bound, walkStar_eq_resolve]
        exact resolved_resolve fun y member => ih y ⟨u, bound, member⟩
  -- A term is resolved by what its variables stand for.
  rw [walkStar_eq_resolve]
  exact resolved_resolve fun x _ => ofVar x (acyclic.grounded x)

/--
Resolving a term is a resolution that later bindings refine.

A term may be resolved early without changing what it stands for in the end. What it is resolved to
has no bound variable and no expression with a value, and such terms are exactly those that are left
as they are.
-/
theorem walkStar_refines {s s' : Substitution} (acyclic : s.Acyclic) (acyclic' : s'.Acyclic)
    (keeps : s'.Extends s) (t : Term Var) :
    s'.walkStar (s.walkStar t) = s'.walkStar t ∧
    (∀ x ∈ (s.walkStar t).vars, s.get? x = none) ∧
    (∀ l op r, .expr l op r ∈ (s.walkStar t).subterms → l.isAtom = true → r.isAtom = true →
      ∀ value, op.evaluate l r ≠ .ok value) ∧
    (s.walkStar t = t ↔ s.Resolved t) := by
  -- The last part goes both ways: a term that is left as it is is what it stands for, hence resolved.
  have resolved := acyclic.resolved_walkStar t
  refine ⟨walkStar_walkStar acyclic' keeps t, resolved.free, fun l op r part _ _ =>
    resolved.reduced l op r part, fun unchanged => ?_, Resolved.walkStar_eq⟩
  exact unchanged ▸ resolved

/-- A sum that waits for one operand is kept inside a product, and both get their values later. -/
theorem walkStar_refines_fourteen :
    (empty.extend ⟨0⟩ (.expr (.var ⟨1⟩) .add (.int 2))).Acyclic ∧
    ((empty.extend ⟨0⟩ (.expr (.var ⟨1⟩) .add (.int 2))).extend ⟨1⟩ (.int 5)).Acyclic ∧
    ((empty.extend ⟨0⟩ (.expr (.var ⟨1⟩) .add (.int 2))).extend ⟨1⟩ (.int 5)).Extends
      (empty.extend ⟨0⟩ (.expr (.var ⟨1⟩) .add (.int 2))) ∧
    (empty.extend ⟨0⟩ (.expr (.var ⟨1⟩) .add (.int 2))).walkStar
        (.pair (.var ⟨1⟩) (.expr (.int 2) .mul (.var ⟨0⟩))) =
      .pair (.var ⟨1⟩) (.expr (.int 2) .mul (.expr (.var ⟨1⟩) .add (.int 2))) ∧
    ((empty.extend ⟨0⟩ (.expr (.var ⟨1⟩) .add (.int 2))).extend ⟨1⟩ (.int 5)).walkStar
        (.pair (.var ⟨1⟩) (.expr (.int 2) .mul (.expr (.var ⟨1⟩) .add (.int 2)))) =
      .pair (.int 5) (.int 14) ∧
    ((empty.extend ⟨0⟩ (.expr (.var ⟨1⟩) .add (.int 2))).extend ⟨1⟩ (.int 5)).walkStar
        (.pair (.var ⟨1⟩) (.expr (.int 2) .mul (.var ⟨0⟩))) = .pair (.int 5) (.int 14) := by
  have acyclic : (empty.extend ⟨0⟩ (.expr (.var ⟨1⟩) .add (.int 2))).Acyclic := by
    refine acyclic_empty.extend fun y occurs path => ?_
    -- Nothing is bound yet, so the operand leads nowhere but to itself.
    rcases path.cases_head with same | ⟨_, ⟨_, bound, _⟩, _⟩
    · subst same
      simp [Term.vars] at occurs
    · cases bound
  have keeps : ((empty.extend ⟨0⟩ (.expr (.var ⟨1⟩) .add (.int 2))).extend ⟨1⟩ (.int 5)).Extends
      (empty.extend ⟨0⟩ (.expr (.var ⟨1⟩) .add (.int 2))) :=
    extends_extend (by decide) _
  have acyclic' := acyclic.extend_of_isAtom (x := ⟨1⟩) (t := .int 5) rfl
  have early : (empty.extend ⟨0⟩ (.expr (.var ⟨1⟩) .add (.int 2))).walkStar
      (.pair (.var ⟨1⟩) (.expr (.int 2) .mul (.var ⟨0⟩))) =
    .pair (.var ⟨1⟩) (.expr (.int 2) .mul (.expr (.var ⟨1⟩) .add (.int 2))) := by decide
  have late : ((empty.extend ⟨0⟩ (.expr (.var ⟨1⟩) .add (.int 2))).extend ⟨1⟩ (.int 5)).walkStar
      (.pair (.var ⟨1⟩) (.expr (.int 2) .mul (.expr (.var ⟨1⟩) .add (.int 2)))) =
    .pair (.int 5) (.int 14) := by decide
  have same := (walkStar_refines acyclic acyclic' keeps
    (.pair (.var ⟨1⟩) (.expr (.int 2) .mul (.var ⟨0⟩)))).1
  rw [early, late] at same
  exact ⟨acyclic, acyclic', keeps, early, late, same.symm⟩

end Substitution

end Relational
