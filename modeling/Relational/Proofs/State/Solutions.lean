import Mathlib.Data.Set.Basic
import Relational.Answer.Basic
import Relational.Proofs.Substitution.Assignment
import Relational.Proofs.Substitution.Scope

/-! Solutions: what a state leaves open of the first variables, and the answers this determines. -/

namespace Relational

open Relation (TransGen)

namespace Assignment

variable {θ θ' : Assignment} {s : Substitution} {t : Term Var} {n m : Nat}
  {solutions : Set Assignment}

/-- Two assignments give the same values to all variables below a bound. -/
def AgreeBelow (n : Nat) (θ θ' : Assignment) : Prop :=
  ∀ x : Var, x.id < n → θ.value x = θ'.value x

/-- Assignments that agree give the same value to a term of the variables they agree on. -/
theorem AgreeBelow.apply_eq (agree : AgreeBelow n θ θ') (below : t.Below n) :
    θ.apply t = θ'.apply t := by
  induction t with
  -- By induction on the term; only its variables are looked up, and these are below the bound.
  | var x => exact agree x (Term.below_var_iff.1 below)
  | pair a d first rest =>
    obtain ⟨left, right⟩ := Term.below_pair_iff.1 below
    rw [apply_pair, apply_pair, first left, rest right]
  | expr l op r first rest =>
    obtain ⟨left, right⟩ := Term.below_expr_iff.1 below
    rw [apply_expr, apply_expr, first left, rest right]
  | _ => rfl

/-- Whether a substitution is satisfied is decided by the values of the variables in it. -/
theorem AgreeBelow.satisfies (agree : AgreeBelow n θ θ') (below : s.Below n)
    (solves : θ.Satisfies s) : θ'.Satisfies s := by
  -- A binding is an equation between values of variables below the bound.
  intro x t bound
  obtain ⟨here, there⟩ := below x t bound
  rw [← agree x here, solves x t bound, agree.apply_eq there]

/-- The assignments that agree with one of the given ones below a bound. -/
def forget (n : Nat) (solutions : Set Assignment) : Set Assignment :=
  {θ | ∃ θ' ∈ solutions, AgreeBelow n θ θ'}

/-- What is forgotten is not brought back by forgetting less. -/
theorem forget_forget (fewer : n ≤ m) : forget n (forget m solutions) = forget n solutions := by
  refine Set.Subset.antisymm ?_ ?_
  · -- The first kept values are among those that were kept before.
    rintro θ ⟨θ', ⟨θ'', member, later⟩, agree⟩
    exact ⟨θ'', member, fun x within =>
      (agree x within).trans (later x (Nat.lt_of_lt_of_le within fewer))⟩
  · rintro θ ⟨θ', member, agree⟩
    exact ⟨θ', ⟨θ', member, fun _ _ => rfl⟩, agree⟩

/-- Forgetting values leaves a solution if there was one. -/
theorem nonempty_forget_iff : (forget n solutions).Nonempty ↔ solutions.Nonempty := by
  constructor
  · -- The witness is the assignment that was forgotten, and conversely any assignment is kept as itself.
    rintro ⟨θ, θ', member, _⟩
    exact ⟨θ', member⟩
  · rintro ⟨θ, member⟩
    exact ⟨θ, θ, member, fun _ _ => rfl⟩

/-- A condition on values that are kept can be put before or after the others are forgotten. -/
theorem forget_inter {condition : Set Assignment}
    (determined : ∀ θ θ', AgreeBelow m θ θ' → θ ∈ condition → θ' ∈ condition) (fewer : n ≤ m) :
    forget n (forget m solutions ∩ condition) = forget n (solutions ∩ condition) := by
  refine Set.Subset.antisymm ?_ ?_
  · -- The condition only looks at values that were kept, so it holds of the assignment that was forgotten, too.
    rintro θ ⟨θ', ⟨⟨θ'', member, later⟩, holds⟩, agree⟩
    exact ⟨θ'', ⟨member, determined θ' θ'' later holds⟩, fun x within =>
      (agree x within).trans (later x (Nat.lt_of_lt_of_le within fewer))⟩
  · rintro θ ⟨θ', ⟨member, holds⟩, agree⟩
    exact ⟨θ', ⟨⟨θ', member, fun _ _ => rfl⟩, holds⟩, agree⟩

/--
A substitution with a solution has no cycle, if it has none of variables alone.

Any other cycle would lead from a value to a smaller one, and back.
-/
theorem Satisfies.acyclic (solves : θ.Satisfies s) (settled : s.Settled) : s.Acyclic := by
  -- One dependency leads to a smaller value, unless the term is a variable, which has the same value.
  have link : ∀ {x y : Var}, s.DependsOn x y →
      (θ.value y).size < (θ.value x).size ∨ s.Follows x y := by
    rintro x y ⟨t, bound, occurs⟩
    by_cases unknown : ∃ z, t = .var z
    · obtain ⟨z, rfl⟩ := unknown
      obtain rfl := List.mem_singleton.1 occurs
      exact .inr bound
    · rw [solves x t bound]
      exact .inl (θ.size_value_lt occurs fun z same => unknown ⟨z, same⟩)
  -- Along a path the values never grow, so a single step inside a larger term makes them smaller for good.
  have path : ∀ {x y : Var}, TransGen s.DependsOn x y →
      (θ.value y).size < (θ.value x).size ∨ TransGen s.Follows x y := by
    intro x y path
    induction path with
    | single depends => exact (link depends).imp_right .single
    | @tail y z before depends ih =>
      have grown := solves.size_le before.to_reflTransGen
      have further := solves.size_le (.single depends)
      rcases link depends with smaller | follows
      · exact .inl (by omega)
      · rcases ih with smaller | chain
        · exact .inl (by omega)
        · exact .inr (chain.tail follows)
  -- No value is smaller than itself, and a cycle of variables alone is excluded by assumption.
  intro x cycle
  rcases path cycle with smaller | chain
  · exact absurd smaller (Nat.lt_irrefl _)
  · exact settled x chain

end Assignment

namespace Answer

open Assignment (constant)

variable {t u : Term Var}

/-- A term that can have different values is a variable. -/
theorem exists_var_of_values (free : t.ExprFree) (unit : ∃ θ : Assignment, θ.apply t = .unit)
    (zero : ∃ θ : Assignment, θ.apply t = .int 0) : ∃ x, t = .var x := by
  obtain ⟨θ, unit⟩ := unit
  obtain ⟨θ', zero⟩ := zero
  -- A term that is no variable has one value only, or at least one kind of values.
  cases t with
  | var x => exact ⟨x, rfl⟩
  | unit => cases zero
  | expr l op r => exact free.elim
  | _ => cases unit

/-- The answer for a term is determined by the values it can have. -/
theorem ofTerm_eq_of_values (left : t.ExprFree) (right : u.ExprFree)
    (same : ∀ value, (∃ θ : Assignment, θ.apply t = value) ↔ ∃ θ : Assignment, θ.apply u = value) :
    ofTerm t = ofTerm u := by
  -- A variable can have any value, so a term with the same values is one, too.
  have unknown : ∀ {t u : Term Var} {x : Var}, u.ExprFree → t = .var x →
      (∀ value, (∃ θ : Assignment, θ.apply t = value) → ∃ θ : Assignment, θ.apply u = value) →
      ∃ y, u = .var y := by
    rintro t u x free rfl same
    exact exists_var_of_values free (same _ ⟨constant .unit trivial, rfl⟩)
      (same _ ⟨constant (.int 0) trivial, rfl⟩)
  induction t generalizing u with
  | var x =>
    obtain ⟨y, rfl⟩ := unknown right rfl fun value => (same value).1
    rfl
  | pair a d first rest =>
    -- Some value of the pair is one of the other term, so this is a pair or a variable.
    obtain ⟨θ, equal⟩ := (same _).1 ⟨constant .unit trivial, rfl⟩
    cases u with
    | var y =>
      obtain ⟨x, impossible⟩ := unknown left rfl fun value => (same value).2
      cases impossible
    | pair b e =>
      -- The values of a component are the components of values.
      have component : ∀ (part : Term Empty → Term Empty) (p q : Term Var),
          (∀ θ : Assignment, part (θ.apply (.pair a d)) = θ.apply p) →
          (∀ θ : Assignment, part (θ.apply (.pair b e)) = θ.apply q) → ∀ value,
          (∃ θ : Assignment, θ.apply p = value) ↔ ∃ θ : Assignment, θ.apply q = value := by
        intro part p q ofLeft ofRight value
        constructor
        · rintro ⟨θ, rfl⟩
          obtain ⟨θ', equal⟩ := (same _).1 ⟨θ, rfl⟩
          exact ⟨θ', by rw [← ofRight, equal, ofLeft]⟩
        · rintro ⟨θ, rfl⟩
          obtain ⟨θ', equal⟩ := (same _).2 ⟨θ, rfl⟩
          exact ⟨θ', by rw [← ofLeft, equal, ofRight]⟩
      have firsts := component (fun t => t.first?.getD .unit) a b (fun _ => rfl) fun _ => rfl
      have rests := component (fun t => t.rest?.getD .unit) d e (fun _ => rfl) fun _ => rfl
      rw [ofTerm, ofTerm, first left.1 right.1 firsts, rest left.2 right.2 rests]
    | _ => cases equal
  | expr l op r => exact left.elim
  | _ =>
    -- A leaf has itself as its only value.
    obtain ⟨θ, equal⟩ := (same _).1 ⟨constant .unit trivial, rfl⟩
    cases u with
    | var y =>
      obtain ⟨x, impossible⟩ := unknown left rfl fun value => (same value).2
      cases impossible
    | expr l op r => exact right.elim
    | _ => cases equal <;> rfl

end Answer

namespace State

open Assignment (forget)

variable {s s' : State} {x : Var} {n : Nat}

/-- The ground values for all variables that a state leaves possible. -/
def solutions (s : State) : Set Assignment :=
  {θ | θ.Satisfies s.bindings}

/-- The values a variable has in the solutions are those of what it is resolved to. -/
theorem exists_solution_value_iff (acyclic : s.bindings.Acyclic) (plain : s.bindings.ExprFree)
    (x : Var) (value : Term Empty) :
    (∃ θ ∈ s.solutions, θ.value x = value) ↔
      ∃ θ : Assignment, θ.apply (s.walkStar (.var x)) = value := by
  constructor
  · -- A solution gives a variable the value of what it is resolved to.
    rintro ⟨θ, solves, rfl⟩
    exact ⟨θ, Assignment.Satisfies.apply_walkStar solves plain trivial⟩
  · -- Conversely, any values of what is left open can be read through the substitution, and solve it.
    rintro ⟨θ, rfl⟩
    exact ⟨θ.through s.bindings plain, θ.through_satisfies acyclic plain, rfl⟩

/-- A state says of a variable what its solutions leave possible for it. -/
theorem reify_eq_of_forget_eq (acyclic : s.bindings.Acyclic) (plain : s.bindings.ExprFree)
    (acyclic' : s'.bindings.Acyclic) (plain' : s'.bindings.ExprFree)
    (same : forget n s.solutions = forget n s'.solutions) (tracked : x.id < n) :
    s.reify (.var x) = s'.reify (.var x) := by
  -- Forgetting the values of other variables does not change the possible values of this one.
  have kept : ∀ s : State, ∀ value, (∃ θ ∈ forget n s.solutions, θ.value x = value) ↔
      ∃ θ ∈ s.solutions, θ.value x = value := by
    intro s value
    constructor
    · rintro ⟨θ, ⟨θ', member, agree⟩, rfl⟩
      exact ⟨θ', member, (agree x tracked).symm⟩
    · rintro ⟨θ, member, equal⟩
      exact ⟨θ, ⟨θ, member, fun _ _ => rfl⟩, equal⟩
  refine Answer.ofTerm_eq_of_values (plain.walkStar trivial) (plain'.walkStar trivial) ?_
  intro value
  rw [← exists_solution_value_iff acyclic plain, ← exists_solution_value_iff acyclic' plain',
    ← kept s, ← kept s', same]

end State

end Relational
