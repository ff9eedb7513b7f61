import Relational.Proofs.Arithmetic.Evaluation
import Relational.Proofs.Substitution.Acyclic

/-! Renaming: terms that differ only in which variables stand where. -/

namespace Relational.Term

variable {ν μ κ : Type} {f : ν → μ} {t : Term ν}

/-- A renamed variable is the new one. -/
@[simp] theorem map_var (f : ν → μ) (x : ν) : (Term.var x).map f = .var (f x) :=
  rfl

/-- A pair is renamed in both components. -/
@[simp] theorem map_pair (f : ν → μ) (a d : Term ν) :
    (Term.pair a d).map f = .pair (a.map f) (d.map f) :=
  rfl

/-- An expression is renamed in both operands. -/
@[simp] theorem map_expr (f : ν → μ) (l r : Term ν) (op : Operator) :
    (Term.expr l op r).map f = .expr (l.map f) op (r.map f) :=
  rfl

/-- Renaming twice is renaming once by both. -/
theorem map_map (f : ν → μ) (g : μ → κ) (t : Term ν) : (t.map f).map g = t.map (g ∘ f) := by
  -- Renaming acts on the leaves, and passes through pairs and expressions.
  induction t with
  | pair a d first rest => simp only [map_pair, first, rest]
  | expr l op r left right => simp only [map_expr, left, right]
  | _ => rfl

/-- The variables of a renamed term are the renamed variables. -/
theorem vars_map (f : ν → μ) (t : Term ν) : (t.map f).vars = t.vars.map f := by
  -- The variables of the parts are listed one behind the other.
  induction t with
  | pair a d first rest => simp only [map_pair, vars, first, rest, List.map_append]
  | expr l op r left right => simp only [map_expr, vars, left, right, List.map_append]
  | _ => rfl

/-- Renaming makes no atom, and keeps every one. -/
@[simp] theorem isAtom_map (f : ν → μ) (t : Term ν) : (t.map f).isAtom = t.isAtom := by
  cases t <;> rfl

/-- Renaming makes no expression, and keeps every one. -/
@[simp] theorem isExpr_map (f : ν → μ) (t : Term ν) : (t.map f).isExpr = t.isExpr := by
  cases t <;> rfl

/-- Terms that are renamed alike are both atoms or both not. -/
theorem isAtom_eq_of_map_eq {u : Term ν} (same : t.map f = u.map f) : u.isAtom = t.isAtom := by
  rw [← isAtom_map f u, ← same, isAtom_map]

/-- Terms that are renamed alike are both expressions or both not. -/
theorem isExpr_eq_of_map_eq {u : Term ν} (same : t.map f = u.map f) : u.isExpr = t.isExpr := by
  rw [← isExpr_map f u, ← same, isExpr_map]

/-- A term without variables has nothing to rename. -/
theorem map_of_closed {f : ν → ν} (closed : t.vars = []) : t.map f = t := by
  -- A term without variables has parts without variables.
  induction t with
  | var x => cases closed
  | pair a d first rest =>
    obtain ⟨firstClosed, restClosed⟩ := List.append_eq_nil_iff.1 closed
    rw [map_pair, first firstClosed, rest restClosed]
  | expr l op r left right =>
    obtain ⟨leftClosed, rightClosed⟩ := List.append_eq_nil_iff.1 closed
    rw [map_expr, left leftClosed, right rightClosed]
  | _ => rfl

/-- Atoms are the same under any names. -/
theorem map_of_isAtom {f : ν → ν} (atom : t.isAtom = true) : t.map f = t :=
  map_of_closed (vars_of_isAtom atom)

/-- A term that is renamed like one without variables is the same term. -/
theorem eq_of_map_eq {f : ν → ν} {u : Term ν} (same : t.map f = u.map f) (closed : t.vars = []) :
    t = u := by
  -- Renaming leaves no variable out and adds none.
  have alsoClosed : u.vars = [] := by
    have renamed := vars_map f u
    rw [← same, vars_map, closed] at renamed
    exact List.map_eq_nil_iff.1 renamed.symm
  rw [← map_of_closed (f := f) closed, same, map_of_closed alsoClosed]

/-- Whether a term is equal to one without variables can be told from the renamed terms. -/
theorem eq_iff_of_map_eq {f : ν → ν} {t' u u' : Term ν} (left : t.map f = t'.map f)
    (right : u.map f = u'.map f) (closed : t.vars = []) : t = u ↔ t' = u' := by
  obtain rfl := eq_of_map_eq left closed
  -- A term that is equal to this one has no variables either, and is the same renamed or not.
  constructor
  · intro equal
    exact equal.trans (eq_of_map_eq right (equal ▸ closed))
  · intro equal
    exact equal.trans (eq_of_map_eq right.symm (equal ▸ closed))

/-- Only a variable is renamed to a variable. -/
theorem eq_var_of_map {y : μ} (renamed : t.map f = .var y) : ∃ x, t = .var x ∧ f x = y := by
  -- Renaming keeps the kind of a term.
  cases t with
  | var x => exact ⟨x, rfl, Term.var.inj renamed⟩
  | _ => cases renamed

/-- Only a pair is renamed to a pair. -/
theorem eq_pair_of_map {a d : Term μ} (renamed : t.map f = .pair a d) :
    ∃ a' d', t = .pair a' d' ∧ a'.map f = a ∧ d'.map f = d := by
  cases t with
  -- The components are renamed on their own.
  | pair a' d' =>
    obtain ⟨first, rest⟩ := Term.pair.inj renamed
    exact ⟨a', d', rfl, first, rest⟩
  | _ => cases renamed

/-- Only an expression is renamed to an expression. -/
theorem eq_expr_of_map {l r : Term μ} {op : Operator} (renamed : t.map f = .expr l op r) :
    ∃ l' r', t = .expr l' op r' ∧ l'.map f = l ∧ r'.map f = r := by
  cases t with
  -- The operator stays, and the operands are renamed on their own.
  | expr l' op' r' =>
    obtain ⟨left, same, right⟩ := Term.expr.inj renamed
    exact ⟨l', r', by rw [same], left, right⟩
  | _ => cases renamed

/-- Terms that are renamed alike are both variables or both not. -/
theorem known_of_map_eq {f : ν → μ} {t u : Term ν} (same : t.map f = u.map f)
    (known : ∀ x, t ≠ .var x) : ∀ y, u ≠ .var y := by
  rintro y rfl
  -- A variable on one side would come from a variable on the other.
  obtain ⟨x, rfl, _⟩ := eq_var_of_map same
  exact known x rfl

/-- Terms that are renamed alike have variables that are renamed alike. -/
theorem exists_mem_vars_of_map_eq {f : ν → μ} {t u : Term ν} {y : ν} (same : t.map f = u.map f)
    (occurs : y ∈ u.vars) : ∃ x ∈ t.vars, f x = f y := by
  -- The lists of renamed variables are the same.
  have renamed : f y ∈ t.vars.map f := by
    rw [← vars_map, same, vars_map]
    exact List.mem_map_of_mem occurs
  exact List.mem_map.1 renamed

/-- Renaming variables and evaluating an expression can be done in either order. -/
theorem map_evaluated (f : Var → Var) (l r : Term Var) (op : Operator) :
    (evaluated l op r).map f = evaluated (l.map f) op (r.map f) := by
  -- Only atoms have a value, and these are the same under any names.
  by_cases atoms : l.isAtom = true ∧ r.isAtom = true
  · rw [map_of_isAtom atoms.1, map_of_isAtom atoms.2, evaluated]
    -- Atoms have no variables, and neither has their value.
    cases value : op.evaluate l r with
    | error e => simp only [map_expr, map_of_isAtom atoms.1, map_of_isAtom atoms.2]
    | ok result =>
      obtain ⟨_, _, atom⟩ := (Operator.evaluate_eq_ok_iff.1 value).isAtom
      exact map_of_isAtom atom
  · have stays : ∀ {l r : Term Var}, ¬ (l.isAtom = true ∧ r.isAtom = true) →
        evaluated l op r = .expr l op r := by
      intro l r open_
      rw [evaluated]
      cases value : op.evaluate l r with
      | error e => rfl
      | ok result =>
        obtain ⟨left, right, _⟩ := (Operator.evaluate_eq_ok_iff.1 value).isAtom
        exact absurd ⟨left, right⟩ open_
    rw [stays atoms, stays (by simpa using atoms), map_expr]

end Relational.Term
