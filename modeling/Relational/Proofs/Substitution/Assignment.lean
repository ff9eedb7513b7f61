import Relational.Proofs.Substitution.Resolve

/-! Ground assignments: values for all variables at once, and the substitutions they satisfy. -/

namespace Relational

open Relation (ReflTransGen)

namespace Term

variable {ν μ : Type}

/-- No operator is left unapplied anywhere in a term. -/
def ExprFree : Term ν → Prop
  | .pair a d => a.ExprFree ∧ d.ExprFree
  | .expr .. => False
  | _ => True

/-- Resolving a term without expressions by such terms leaves it without expressions. -/
theorem ExprFree.resolve {f : Var → Term Var} {t : Term Var} (free : t.ExprFree)
    (values : ∀ x, (f x).ExprFree) : (t.resolve f).ExprFree := by
  -- Only a variable brings in something new, and expressions are excluded.
  induction t with
  | var x => exact values x
  | pair a d first rest => exact ⟨first free.1, rest free.2⟩
  | expr l op r => exact free.elim
  | _ => trivial

/-- Without expressions, resolving first and instantiating then is instantiating by both. -/
theorem instantiate_resolve {f : Var → Term Var} (g : Var → Term μ) {t : Term Var}
    (free : t.ExprFree) :
    (t.resolve f).instantiate g = t.instantiate fun x => (f x).instantiate g := by
  -- Without expressions nothing is evaluated in between.
  induction t with
  | pair a d first rest =>
    rw [Term.resolve, instantiate, instantiate, first free.1, rest free.2]
  | expr l op r => exact free.elim
  | _ => rfl

/-- Instantiating by terms without expressions leaves a term without expressions. -/
theorem ExprFree.instantiate {f : ν → Term μ} {t : Term ν} (free : t.ExprFree)
    (values : ∀ x, (f x).ExprFree) : (t.instantiate f).ExprFree := by
  -- The shape above the variables stays as it was.
  induction t with
  | var x => exact values x
  | pair a d first rest => exact ⟨first free.1, rest free.2⟩
  | expr l op r => exact free.elim
  | _ => trivial

end Term

namespace Substitution

variable {s : Substitution} {x : Var} {t : Term Var}

/-- No variable is bound to a term with an expression in it. -/
def ExprFree (s : Substitution) : Prop :=
  ∀ x t, s.get? x = some t → t.ExprFree

/-- Without bindings nothing is bound to an expression. -/
theorem exprFree_empty : empty.ExprFree := by
  intro x t bound
  cases bound

/-- Following bindings without expressions leads to no expression. -/
theorem ExprFree.walk (plain : s.ExprFree) (free : t.ExprFree) : (s.walk t).ExprFree :=
  -- One hop leads to a bound term, and none of these is an expression.
  s.walk_induction Term.ExprFree (fun x u bound _ => plain x u bound) free

/-- Resolving by bindings without expressions gives a term without expressions. -/
theorem ExprFree.walkStar (plain : s.ExprFree) (free : t.ExprFree) : (s.walkStar t).ExprFree := by
  -- The induction is on the hops that are allowed, for all terms at once.
  unfold Substitution.walkStar
  induction s.size generalizing t with
  | zero => exact free.resolve (f := .var) fun _ => trivial
  | succ hops ih =>
    -- Whatever replaces a variable is a bound term that was resolved with fewer hops.
    refine free.resolve fun x => ?_
    cases bound : s.get? x with
    | none => trivial
    | some u => exact ih (plain x u bound)

/-- A new binding without expressions leaves a substitution without expressions. -/
theorem ExprFree.extend (plain : s.ExprFree) (free : t.ExprFree) : (s.extend x t).ExprFree := by
  -- Every binding is the new one or was there before.
  intro y u bound
  rw [get?_extend] at bound
  split at bound
  · exact Option.some.inj bound ▸ free
  · exact plain y u bound

end Substitution

/-- A ground value without expressions for every variable. -/
structure Assignment where
  value : Var → Term Empty
  exprFree : ∀ x, (value x).ExprFree

namespace Assignment

variable {θ : Assignment} {s : Substitution} {x y : Var} {t : Term Var}

/-- A term with the value of every variable put in. -/
def apply (θ : Assignment) (t : Term Var) : Term Empty :=
  t.instantiate θ.value

/-- Every bound variable has the value of its term. -/
def Satisfies (θ : Assignment) (s : Substitution) : Prop :=
  ∀ x t, s.get? x = some t → θ.value x = θ.apply t

/-- A value does not change when bindings in front of a term are followed. -/
theorem Satisfies.apply_walk (solves : θ.Satisfies s) (t : Term Var) :
    θ.apply (s.walk t) = θ.apply t := by
  -- At each hop the variable has the value of the term it is bound to.
  refine s.walk_induction (fun u => θ.apply u = θ.apply t) ?_ rfl
  intro x u bound same
  rw [← same]
  exact (solves x u bound).symm

/-- A binding of a free variable is one more equation to satisfy. -/
theorem satisfies_extend_iff (free : s.get? x = none) :
    θ.Satisfies (s.extend x t) ↔ θ.Satisfies s ∧ θ.value x = θ.apply t := by
  constructor
  · -- The free variable had no equation, so all earlier ones are among the later ones.
    intro solves
    refine ⟨fun y u bound => ?_, ?_⟩
    · exact solves y u (Substitution.extends_extend free t y u bound)
    · exact solves x t (by rw [Substitution.get?_extend, if_pos rfl])
  · intro solves y u bound
    obtain ⟨before, equation⟩ := solves
    rw [Substitution.get?_extend] at bound
    -- The binding looked up is the new equation or one of the old ones.
    split at bound
    · rename_i same
      obtain rfl := Option.some.inj bound
      rw [same, equation]
    · exact before y u bound

/-- The value of a pair is the pair of the values. -/
@[simp] theorem apply_pair (θ : Assignment) (a d : Term Var) :
    θ.apply (.pair a d) = .pair (θ.apply a) (θ.apply d) :=
  rfl

/-- The value of an expression is the expression of the values. -/
@[simp] theorem apply_expr (θ : Assignment) (l r : Term Var) (op : Operator) :
    θ.apply (.expr l op r) = .expr (θ.apply l) op (θ.apply r) :=
  rfl

/-- The value of a variable is no larger than that of a term it occurs in. -/
theorem size_value_le (θ : Assignment) (occurs : x ∈ t.vars) :
    (θ.value x).size ≤ (θ.apply t).size := by
  -- The value of a part is a part of the value.
  induction t with
  | var y => exact List.mem_singleton.1 occurs ▸ Nat.le_refl _
  | pair a d first rest =>
    have parts := (List.mem_append.1 occurs).imp first rest
    simp only [apply_pair, Term.size]
    omega
  | expr l op r left right =>
    have parts := (List.mem_append.1 occurs).imp left right
    simp only [apply_expr, Term.size]
    omega
  | _ => cases occurs

/-- The value of a variable is smaller than that of a term it is a proper part of. -/
theorem size_value_lt (θ : Assignment) (occurs : x ∈ t.vars) (proper : ∀ y, t ≠ .var y) :
    (θ.value x).size < (θ.apply t).size := by
  -- One constructor above the variable makes the value larger.
  cases t with
  | var y => exact absurd rfl (proper y)
  | pair a d =>
    have parts := (List.mem_append.1 occurs).imp θ.size_value_le θ.size_value_le
    simp only [apply_pair, Term.size]
    omega
  | expr l op r =>
    have parts := (List.mem_append.1 occurs).imp θ.size_value_le θ.size_value_le
    simp only [apply_expr, Term.size]
    omega
  | _ => cases occurs

/-- Values get no larger along the dependencies of a satisfied substitution. -/
theorem Satisfies.size_le (solves : θ.Satisfies s) (path : ReflTransGen s.DependsOn x y) :
    (θ.value y).size ≤ (θ.value x).size := by
  -- Each dependency is an occurrence in a bound term, whose value is that of its variable.
  induction path with
  | refl => exact Nat.le_refl _
  | tail _ depends earlier =>
    obtain ⟨t, bound, occurs⟩ := depends
    rw [solves _ t bound] at earlier
    exact (θ.size_value_le occurs).trans earlier

/-- A value does not change when a term is resolved by bindings that hold. -/
theorem Satisfies.apply_walkStar (solves : θ.Satisfies s) (plain : s.ExprFree)
    (free : t.ExprFree) : θ.apply (s.walkStar t) = θ.apply t := by
  -- The induction is on the hops that are allowed, each of which goes through an equation.
  unfold Substitution.walkStar
  induction s.size generalizing t with
  | zero => exact Term.instantiate_resolve (f := .var) θ.value free
  | succ hops ih =>
    rw [Substitution.walkStarWithin, apply, Term.instantiate_resolve _ free]
    refine congrArg t.instantiate (funext fun x => ?_)
    cases bound : s.get? x with
    | none => rfl
    | some u => exact (ih (plain x u bound)).trans (solves x u bound).symm

/-- The values that a substitution gives, if the variables it leaves free have given ones. -/
def through (θ : Assignment) (s : Substitution) (plain : s.ExprFree) : Assignment where
  value x := θ.apply (s.walkStar (.var x))
  exprFree x := by
    have resolved : (s.walkStar (.var x)).ExprFree := plain.walkStar trivial
    exact resolved.instantiate θ.exprFree

/-- The value a substitution gives to a term is that of what the term is resolved to. -/
theorem through_apply {plain : s.ExprFree} (free : t.ExprFree) :
    (θ.through s plain).apply t = θ.apply (s.walkStar t) := by
  -- Both sides put the same ground terms in for the variables.
  rw [Substitution.walkStar_eq_resolve, apply, apply, Term.instantiate_resolve _ free]
  rfl

/-- An acyclic substitution is satisfied by the values that it gives. -/
theorem through_satisfies (θ : Assignment) (acyclic : s.Acyclic) (plain : s.ExprFree) :
    (θ.through s plain).Satisfies s := by
  -- Without a cycle, a bound variable is resolved to what its term is resolved to.
  intro x t bound
  rw [through_apply (plain x t bound)]
  show θ.apply (s.walkStar (.var x)) = _
  rw [Substitution.walkStar_var_of_bound acyclic bound]

/-- The same value for all variables. -/
def constant (value : Term Empty) (free : value.ExprFree) : Assignment where
  value _ := value
  exprFree _ := free

/-- The values that a substitution gives by itself, with `unit` for what stays free. -/
def ofSubstitution (s : Substitution) (plain : s.ExprFree) : Assignment where
  value x := (s.walkStar (.var x)).instantiate fun _ => .unit
  exprFree x := by
    have resolved : (s.walkStar (.var x)).ExprFree := plain.walkStar trivial
    exact resolved.instantiate (f := fun _ => .unit) fun _ => trivial

/-- The value a substitution gives to a term is what the term is resolved to. -/
theorem ofSubstitution_apply {plain : s.ExprFree} (free : t.ExprFree) :
    (ofSubstitution s plain).apply t = (s.walkStar t).instantiate fun _ => .unit := by
  -- The values are those of the constant assignment, read through the substitution.
  show ((constant .unit trivial).through s plain).apply t = _
  rw [through_apply free]
  rfl

/-- An acyclic substitution is satisfied by the values that it gives by itself. -/
theorem ofSubstitution_satisfies (acyclic : s.Acyclic) (plain : s.ExprFree) :
    (ofSubstitution s plain).Satisfies s :=
  -- It is an instance of reading any assignment through the substitution.
  through_satisfies (constant .unit trivial) acyclic plain

end Assignment

end Relational
