import Relational.Goal.Basic
import Relational.Proofs.Substitution.Acyclic

/-! Naming: what the names of a goal stand for, and which variables they bring in. -/

namespace Relational

/-- Values can be changed before or after one of them is looked up. -/
theorem lookup_map {κ β γ : Type} [BEq κ] (f : β → γ) (pairs : List (κ × β)) (key : κ) :
    (pairs.map (Prod.map id f)).lookup key = (pairs.lookup key).map f := by
  -- Only the second components differ, and keys are compared by the first ones.
  induction pairs with
  | nil => rfl
  | cons pair rest ih =>
    obtain ⟨other, value⟩ := pair
    simp only [List.map_cons, Prod.map_apply, id, List.lookup_cons, ih]
    cases key == other <;> rfl

/-- What a name is given by a binder, where of equal names the last one counts. -/
def given {β : Type} (names : List String) (values : List β) (name : String) : Option β :=
  (names.zip values).reverse.lookup name

section Given

variable {β γ : Type} {names : List String} {values : List β} {name : String}

/-- Whatever a binder gives is one of its values. -/
theorem mem_of_given {value : β} (found : given names values name = some value) :
    value ∈ values := by
  -- The pair that is found comes from the two lists side by side.
  obtain ⟨before, after, pairs, _⟩ := List.lookup_eq_some_iff.1 found
  have listed : (name, value) ∈ (names.zip values).reverse := by simp [pairs]
  exact (List.of_mem_zip (List.mem_reverse.1 listed)).2

/-- Values can be changed before or after they are given. -/
theorem given_map (f : β → γ) :
    given names (values.map f) name = (given names values name).map f := by
  -- The names are paired with the values in the same order, whatever becomes of the values.
  rw [given, given, List.zip_map_right, ← List.map_reverse, lookup_map]

end Given

namespace Env

/-- A binder gives names their terms, and leaves all other names alone. -/
theorem term_extend (env : Env) (names : List String) (terms : List (Term Var)) (name : String) :
    (env.extend names terms).term (.bound name) =
      (given names terms name).getD (env.term (.bound name)) := by
  -- The new pairs stand before the old ones, so a name is sought among them first.
  rw [term, extend, List.lookup_append, given]
  cases (names.zip terms).reverse.lookup name with
  | none => rfl
  | some t => rfl

end Env

/-- The variables of an instance are those that the names of the term bring in. -/
theorem Term.mem_vars_instantiate {ν μ : Type} {f : ν → Term μ} {t : Term ν} {x : μ} :
    x ∈ (t.instantiate f).vars ↔ ∃ y ∈ t.vars, x ∈ (f y).vars := by
  induction t with
  -- By induction on the term; a name is replaced by its own term, and nothing else brings in variables.
  | pair a d first rest =>
    simp only [instantiate, vars, List.mem_append, first, rest, or_and_right, exists_or]
  | expr l op r left right =>
    simp only [instantiate, vars, List.mem_append, left, right, or_and_right, exists_or]
  | _ => simp [instantiate, vars]

end Relational
