import Relational.Proofs.Arithmetic.Evaluation
import Relational.Proofs.Substitution.Chain

/-! Resolving terms: the equations of the deep walk, and what later bindings leave of it. -/

namespace Relational

namespace Term

/-- An atom stays itself when it is resolved. -/
theorem resolve_of_isAtom {f : Var → Term Var} {t : Term Var} (atom : t.isAtom = true) :
    t.resolve f = t := by
  -- Resolving changes variables and goes into pairs and expressions, which atoms are not.
  cases t with
  | var x => cases atom
  | pair a d => cases atom
  | expr l op r => cases atom
  | _ => rfl

/-- The variables of a resolved term come from what its own variables stand for. -/
theorem exists_mem_vars_of_resolve {f : Var → Term Var} {t : Term Var} {y : Var}
    (occurs : y ∈ (t.resolve f).vars) : ∃ x ∈ t.vars, y ∈ (f x).vars := by
  induction t with
  -- By induction on the term: a variable is replaced, and every other variable comes from a part.
  | var x => exact ⟨x, List.mem_singleton.2 rfl, occurs⟩
  | pair a d first rest =>
    rcases List.mem_append.1 occurs with inFirst | inRest
    · obtain ⟨x, member, there⟩ := first inFirst
      exact ⟨x, List.mem_append_left _ member, there⟩
    · obtain ⟨x, member, there⟩ := rest inRest
      exact ⟨x, List.mem_append_right _ member, there⟩
  | expr l op r left right =>
    rw [resolve, evaluated] at occurs
    cases value : op.evaluate (l.resolve f) (r.resolve f) with
    | ok result =>
      -- A value is an atom, and has no variables.
      obtain ⟨_, _, atom⟩ := (Operator.evaluate_eq_ok_iff.1 value).isAtom
      simp [value, vars_of_isAtom atom] at occurs
    | error e =>
      simp only [value, vars] at occurs
      rcases List.mem_append.1 occurs with inLeft | inRight
      · obtain ⟨x, member, there⟩ := left inLeft
        exact ⟨x, List.mem_append_left _ member, there⟩
      · obtain ⟨x, member, there⟩ := right inRight
        exact ⟨x, List.mem_append_right _ member, there⟩
  | _ => cases occurs

end Term

namespace Substitution

variable {s s' : Substitution} {x : Var} {t u : Term Var}

/-- A term is resolved by resolving its variables. -/
theorem walkStar_eq_resolve (s : Substitution) (t : Term Var) :
    s.walkStar t = t.resolve fun x => s.walkStar (.var x) := by
  -- This is how the deep walk begins, however many hops it is allowed.
  unfold walkStar
  cases s.size <;> rfl

/-- A pair is resolved in both components. -/
@[simp] theorem walkStar_pair (s : Substitution) (a d : Term Var) :
    s.walkStar (.pair a d) = .pair (s.walkStar a) (s.walkStar d) := by
  -- Resolving goes into both components with the same values for variables.
  rw [walkStar_eq_resolve, walkStar_eq_resolve s a, walkStar_eq_resolve s d, Term.resolve]

/-- An expression is resolved in both operands, and then evaluated if it has a value. -/
@[simp] theorem walkStar_expr (s : Substitution) (l r : Term Var) (op : Operator) :
    s.walkStar (.expr l op r) = Term.evaluated (s.walkStar l) op (s.walkStar r) := by
  -- Resolving goes into both operands with the same values for variables.
  rw [walkStar_eq_resolve, walkStar_eq_resolve s l, walkStar_eq_resolve s r, Term.resolve]

/-- An atom stands for itself. -/
theorem walkStar_of_isAtom (s : Substitution) (atom : t.isAtom = true) : s.walkStar t = t := by
  -- There is no variable in an atom to be replaced.
  rw [walkStar_eq_resolve, Term.resolve_of_isAtom atom]

/-- An expression that is resolved to something else has a value. -/
theorem isAtom_walkStar_of_isExpr (expression : t.isExpr = true)
    (valued : (s.walkStar t).isExpr = false) : (s.walkStar t).isAtom = true := by
  cases t with
  | expr l op r =>
    rw [walkStar_expr, Term.evaluated] at valued ⊢
    cases value : op.evaluate (s.walkStar l) (s.walkStar r) with
    -- Evaluation is the only way for an expression to become something else, and values are atoms.
    | ok result => exact (Operator.evaluate_eq_ok_iff.1 value).isAtom.2.2
    | error e => simp [value, Term.isExpr] at valued
  | _ => cases expression

/-- With more hops than the rank of its variables, a term is resolved no further. -/
theorem walkStarWithin_succ {rank : Var → Nat}
    (falls : ∀ x y, s.Grounded x → s.DependsOn x y → rank y < rank x)
    (positive : ∀ x ∈ s.domain, 0 < rank x) (hops : Nat) (t : Term Var)
    (resolvable : s.Resolvable t) (enough : ∀ x ∈ t.vars, rank x ≤ hops) :
    s.walkStarWithin (hops + 1) t = s.walkStarWithin hops t := by
  induction hops generalizing t with
  | zero =>
    -- Variables of rank zero are free, so there is nothing to follow.
    refine Term.resolve_congr fun x member => ?_
    cases bound : s.get? x with
    | none => rfl
    | some u =>
      have higher := positive x (mem_domain bound)
      have lower := enough x member
      omega
  | succ hops ih =>
    refine Term.resolve_congr fun x member => ?_
    cases bound : s.get? x with
    | none => rfl
    | some u =>
      have grounded := resolvable x member
      -- The variables of the bound term have lower ranks, so one hop less is enough for them.
      refine ih u (fun y occurs => grounded.of_dependsOn ⟨u, bound, occurs⟩) fun y occurs => ?_
      have lower := falls x y grounded ⟨u, bound, occurs⟩
      have limit := enough x member
      omega

/-- A free variable stands for itself. -/
theorem walkStar_of_free (free : s.get? x = none) : s.walkStar (.var x) = .var x := by
  unfold walkStar
  -- Any number of hops leaves a free variable alone.
  cases s.size with
  | zero => rfl
  | succ hops => rw [walkStarWithin, Term.resolve, free]

/-- A bound variable stands for what its term stands for, unless it leads into a cycle. -/
theorem Grounded.walkStar_var (grounded : s.Grounded x) (bound : s.get? x = some t) :
    s.walkStar (.var x) = s.walkStar t := by
  obtain ⟨rank, falls, positive, limit⟩ :=
    s.exists_rank s.DependsOn fun _ _ => DependsOn.mem_domain
  have resolvable : s.Resolvable (.var x) := by
    intro y occurs
    obtain rfl := List.mem_singleton.1 occurs
    exact grounded
  -- One hop more changes nothing, and the first of them goes to the bound term.
  have settled := walkStarWithin_succ (fun x y grounded depends =>
    falls x y depends grounded.not_transGen) positive s.size (.var x) resolvable fun y _ => limit y
  rw [walkStar, ← settled, walkStarWithin, Term.resolve, bound]
  rfl

/-- A bound variable of an acyclic substitution stands for what its term stands for. -/
theorem walkStar_var_of_bound (acyclic : s.Acyclic) (bound : s.get? x = some t) :
    s.walkStar (.var x) = s.walkStar t :=
  -- Without cycles every variable is grounded, which is all that following the binding needs.
  (acyclic.grounded x).walkStar_var bound

/-- What holds of a term and is passed on by every binding holds of the term it is walked to. -/
theorem walk_induction (s : Substitution) (property : Term Var → Prop)
    (follows : ∀ x u, s.get? x = some u → property (.var x) → property u)
    (start : property t) : property (s.walk t) := by
  cases walked : s.walk? t with
  | none =>
    -- A term that is walked for ever is left as it is.
    rw [walk, walked]
    exact start
  | some r =>
    -- Each hop goes through one binding, which passes the property on.
    rw [walk_eq_of_walk? walked]
    have walks := s.walk?_eq_some_iff.1 walked
    clear walked
    induction walks with
    | known _ => exact start
    | free _ => exact start
    | hop bound _ ih => exact ih (follows _ _ bound start)

/-- Following bindings from a term that can be resolved leads to one that can be resolved. -/
theorem Resolvable.walk (resolvable : s.Resolvable t) : s.Resolvable (s.walk t) := by
  -- One hop leads from a variable to a term whose variables it depends on.
  refine s.walk_induction (fun u => s.Resolvable u) (fun x u bound here y occurs => ?_) resolvable
  exact (here x (List.mem_singleton.2 rfl)).of_dependsOn ⟨u, bound, occurs⟩

/-- A resolved term can be resolved again. -/
theorem Resolvable.walkStar (resolvable : s.Resolvable t) : s.Resolvable (s.walkStar t) := by
  -- The induction is on the ways from a variable, which all come to an end.
  have ofVar : ∀ x, s.Grounded x → s.Resolvable (s.walkStar (.var x)) := by
    intro x grounded
    induction grounded with
    | intro x lower ih =>
      intro y occurs
      cases bound : s.get? x with
      | none =>
        rw [walkStar_of_free bound] at occurs
        rw [List.mem_singleton.1 occurs]
        exact grounded_of_free bound
      | some u =>
        have grounded : s.Grounded x := ⟨x, lower⟩
        rw [grounded.walkStar_var bound, walkStar_eq_resolve] at occurs
        obtain ⟨z, member, there⟩ := Term.exists_mem_vars_of_resolve occurs
        exact ih z ⟨u, bound, member⟩ y there
  -- A variable of the resolved term comes from what some variable of the term stands for.
  intro y occurs
  rw [walkStar_eq_resolve] at occurs
  obtain ⟨x, member, there⟩ := Term.exists_mem_vars_of_resolve occurs
  exact ofVar x (resolvable x member) y there

/-- Following bindings in front of a term does not change what it stands for later. -/
theorem walkStar_walk (acyclic : s'.Acyclic) (keeps : s'.Extends s) (t : Term Var) :
    s'.walkStar (s.walk t) = s'.walkStar t := by
  -- Each hop replaces a bound variable by its term, and both stand for the same.
  refine s.walk_induction (fun u => s'.walkStar u = s'.walkStar t) ?_ rfl
  intro x u bound same
  rw [← same, walkStar_var_of_bound acyclic (keeps x u bound)]

/-- Replacing variables by terms that stand for the same does not change what a term stands for. -/
theorem walkStar_resolve {f : Var → Term Var}
    (same : ∀ x, s.walkStar (f x) = s.walkStar (.var x)) (t : Term Var) :
    s.walkStar (t.resolve f) = s.walkStar t := by
  -- Only expressions need care, since they may have got a value on the way.
  induction t with
  | var x => exact same x
  | pair a d first rest => rw [Term.resolve, walkStar_pair, walkStar_pair, first, rest]
  | expr l op r left right =>
    rw [Term.resolve, walkStar_expr, ← left, ← right, Term.evaluated]
    cases value : op.evaluate (l.resolve f) (r.resolve f) with
    | error e => exact walkStar_expr s _ _ op
    | ok result =>
      -- Operands that have a value are atoms, which no later binding changes.
      obtain ⟨first, second, atom⟩ := (Operator.evaluate_eq_ok_iff.1 value).isAtom
      rw [walkStar_of_isAtom s first, walkStar_of_isAtom s second, Term.evaluated, value]
      exact walkStar_of_isAtom s atom
  | _ => rfl

/-- A term that was resolved earlier still stands for the same after more bindings. -/
theorem walkStar_walkStar (acyclic : s'.Acyclic) (keeps : s'.Extends s) (t : Term Var) :
    s'.walkStar (s.walkStar t) = s'.walkStar t := by
  show s'.walkStar (s.walkStarWithin s.size t) = s'.walkStar t
  -- The induction is on the hops of the earlier walk, each through a binding that is kept.
  induction s.size generalizing t with
  | zero => exact walkStar_resolve (fun _ => rfl) t
  | succ hops ih =>
    refine walkStar_resolve (fun x => ?_) t
    cases bound : s.get? x with
    | none => rfl
    | some u => rw [ih, walkStar_var_of_bound acyclic (keeps x u bound)]

/-- Following bindings from a term of an acyclic substitution never stops at a bound variable. -/
theorem get?_eq_none_of_walk (acyclic : s.Acyclic) (walked : s.walk t = .var x) :
    s.get? x = none :=
  acyclic.settled.get?_eq_none walked

end Substitution

end Relational
