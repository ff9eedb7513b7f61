import Relational.Proofs.Substitution.Resolve

/-! Scope: terms and substitutions all of whose variables are numbered below a bound. -/

namespace Relational

namespace Term

variable {t a d l r : Term Var} {op : Operator} {n m : Nat}

/-- Every variable of a term has a number below a bound. -/
def Below (n : Nat) (t : Term Var) : Prop :=
  ∀ x ∈ t.vars, x.id < n

instance : Decidable (t.Below n) :=
  inferInstanceAs (Decidable (∀ x ∈ t.vars, x.id < n))

/-- A higher bound holds as well. -/
theorem Below.mono (below : t.Below n) (higher : n ≤ m) : t.Below m :=
  fun x occurs => Nat.lt_of_lt_of_le (below x occurs) higher

/-- A variable is below a bound if its number is. -/
@[simp] theorem below_var_iff {x : Var} : (Term.var x).Below n ↔ x.id < n := by
  -- It is the only variable of the term.
  simp [Below, vars]

/-- A pair is below a bound if both components are. -/
@[simp] theorem below_pair_iff : (Term.pair a d).Below n ↔ a.Below n ∧ d.Below n := by
  -- The variables of a pair are those of its components together.
  simp [Below, vars, or_imp, forall_and]

/-- An expression is below a bound if both operands are. -/
@[simp] theorem below_expr_iff : (Term.expr l op r).Below n ↔ l.Below n ∧ r.Below n := by
  simp [Below, vars, or_imp, forall_and]

/-- An atom has no variables that could be out of bounds. -/
theorem below_of_isAtom (atom : t.isAtom = true) : t.Below n := by
  intro x occurs
  -- There are no variables in an atom.
  rw [vars_of_isAtom atom] at occurs
  cases occurs

end Term

namespace Substitution

variable {s : Substitution} {t : Term Var} {x : Var} {n m : Nat}

/-- Every variable that is bound, or occurs in a bound term, has a number below a bound. -/
def Below (n : Nat) (s : Substitution) : Prop :=
  ∀ x t, s.get? x = some t → x.id < n ∧ t.Below n

/-- Without bindings nothing is out of bounds. -/
theorem below_empty : empty.Below n := by
  intro x t bound
  cases bound

/-- A higher bound holds as well. -/
theorem Below.mono (below : s.Below n) (higher : n ≤ m) : s.Below m := by
  intro x t bound
  obtain ⟨here, there⟩ := below x t bound
  -- The bound limits the variable as well as the term that it is bound to.
  exact ⟨Nat.lt_of_lt_of_le here higher, there.mono higher⟩

/-- A binding below the bound can be added. -/
theorem Below.extend (below : s.Below n) (here : x.id < n) (there : t.Below n) :
    (s.extend x t).Below n := by
  intro y u bound
  rw [get?_extend] at bound
  -- The binding looked up is the new one or was there before.
  split at bound
  · rename_i same
    obtain rfl := Option.some.inj bound
    exact ⟨same ▸ here, there⟩
  · exact below y u bound

/-- Following bindings stays below the bound. -/
theorem Below.walk (below : s.Below n) (start : t.Below n) : (s.walk t).Below n :=
  -- One hop leads to a bound term, and all of these are below the bound.
  s.walk_induction (fun u => u.Below n) (fun x u bound _ => (below x u bound).2) start

/-- Resolving a term stays below the bound. -/
theorem Below.walkStar (below : s.Below n) (start : t.Below n) : (s.walkStar t).Below n := by
  -- The induction is on the hops that are allowed, for all terms at once.
  unfold Substitution.walkStar
  induction s.size generalizing t with
  | zero =>
    intro y occurs
    obtain ⟨x, member, here⟩ := Term.exists_mem_vars_of_resolve occurs
    exact List.mem_singleton.1 here ▸ start x member
  | succ hops ih =>
    intro y occurs
    obtain ⟨x, member, there⟩ := Term.exists_mem_vars_of_resolve occurs
    -- A variable of the result comes from a bound term, or has stood there from the start.
    cases bound : s.get? x with
    | none =>
      simp only [bound] at there
      exact List.mem_singleton.1 there ▸ start x member
    | some u =>
      simp only [bound] at there
      exact ih (below x u bound).2 y there

end Substitution

end Relational
