import Mathlib.Logic.Embedding.Basic
import Relational.Proofs.Term.Renaming

/-! Renamed substitutions: the same bindings under other names, which are followed the same way. -/

namespace Relational

namespace Term

variable {ν μ : Type}

/-- A renamed term has as many nodes. -/
@[simp] theorem size_map (f : ν → μ) (t : Term ν) : (t.map f).size = t.size := by
  induction t with
  -- Renaming goes into both parts, and keeps the node above them.
  | pair a d first rest => rw [map_pair, size, size, first, rest]
  | expr l op r left right => rw [map_expr, size, size, left, right]
  | _ => rfl

/-- Different names keep different terms apart. -/
theorem map_injective {f : ν → μ} (injective : Function.Injective f) :
    Function.Injective (Term.map f) := by
  -- The second term is of the same kind as the first, so the induction is on the first alone.
  intro t
  induction t with
  | var x =>
    intro u same
    obtain ⟨y, rfl, label⟩ := eq_var_of_map same.symm
    rw [injective label]
  | pair a d first rest =>
    intro u same
    obtain ⟨a', d', rfl, sameFirst, sameRest⟩ := eq_pair_of_map same.symm
    rw [first sameFirst.symm, rest sameRest.symm]
  | expr l op r left right =>
    intro u same
    obtain ⟨l', r', rfl, sameLeft, sameRight⟩ := eq_expr_of_map same.symm
    rw [left sameLeft.symm, right sameRight.symm]
  | _ =>
    intro u same
    -- Terms without variables are renamed to themselves.
    cases u <;> cases same
    rfl

/-- A renamed term is resolved like the term, if its variables stand for the renamed values. -/
theorem resolve_map {π : Var → Var} {f g : Var → Term Var} (renamed : ∀ x, g (π x) = (f x).map π)
    (t : Term Var) : (t.map π).resolve g = (t.resolve f).map π := by
  induction t with
  -- By induction on the term: the variables are the assumption, and evaluation does not look at names.
  | var x => exact renamed x
  | pair a d first rest => rw [map_pair, resolve, resolve, map_pair, first, rest]
  | expr l op r left right => rw [map_expr, resolve, resolve, map_evaluated, left, right]
  | _ => rfl

end Term

namespace Substitution

variable {s : Substitution} {x : Var} {t : Term Var}

/-- A new binding makes a substitution larger by one. -/
theorem size_extend (free : s.get? x = none) (t : Term Var) :
    (s.extend x t).size = s.size + 1 := by
  have longer : ∀ {bindings : List Binding}, findBinding x bindings = none →
      (putBinding x t bindings).length = bindings.length + 1 := by
    intro bindings absent
    -- Only a binding of the same variable would be replaced, and there is none.
    induction bindings with
    | nil => rfl
    | cons other rest ih =>
      obtain ⟨y, u⟩ := other
      rw [findBinding] at absent
      rw [putBinding]
      split
      · rfl
      · rename_i notLess
        rw [if_neg notLess] at absent
        split
        · rename_i same
          rw [if_pos same] at absent
          cases absent
        · rename_i different
          rw [if_neg different] at absent
          rw [List.length_cons, ih absent, List.length_cons]
  exact longer free

/-- A new binding adds the nodes of its term. -/
theorem weight_extend (free : s.get? x = none) (t : Term Var) :
    (s.extend x t).weight = s.weight + t.size := by
  -- Nothing is subtracted for a binding that would be replaced.
  have nothing : boundSize x s.entries = 0 := by
    rw [boundSize, show findBinding x s.entries = none from free]
  show s.weight + t.size - boundSize x s.entries = s.weight + t.size
  rw [nothing, Nat.sub_zero]

/-- The given bindings with every variable renamed, on both sides. -/
def renamed (π : Var → Var) (bindings : List Binding) : Substitution :=
  bindings.foldr (fun binding later => later.extend (π binding.1) (binding.2.map π)) .empty

/-- A substitution with every variable renamed, the bound ones as well as those in their terms. -/
def rename (π : Var → Var) (s : Substitution) : Substitution :=
  renamed π s.entries

variable {π : Var ↪ Var} {bindings : List Binding}

/-- A variable that nothing is renamed to is not bound. -/
theorem get?_renamed_of_new {y : Var} (new : ∀ x, π x ≠ y) :
    (renamed π bindings).get? y = none := by
  induction bindings with
  | nil => rfl
  | cons binding rest ih =>
    -- The bindings are put in one after another, each for a variable that something is renamed to.
    rw [renamed, List.foldr_cons, get?_extend, if_neg (Ne.symm (new binding.1))]
    exact ih

/-- A renamed variable is bound to the renamed term. -/
theorem get?_renamed (ordered : bindings.Pairwise fun a b => b.1.id < a.1.id) (x : Var) :
    (renamed π bindings).get? (π x) = (findBinding x bindings).map (·.map π) := by
  induction bindings with
  | nil => rfl
  | cons binding rest ih =>
    obtain ⟨y, u⟩ := binding
    obtain ⟨below, ordered⟩ := List.pairwise_cons.1 ordered
    -- The last binding to be put in is the first one of the list, and the search looks at it first, too.
    rw [renamed, List.foldr_cons, get?_extend, ← renamed, ih ordered, findBinding]
    by_cases same : x = y
    · simp [same]
    · rw [if_neg fun equal => same (π.injective equal), if_neg same]
      split
      -- Behind a smaller variable the search would have found nothing either.
      next less =>
        cases found : findBinding x rest with
        | none => rfl
        | some t =>
          have smaller : x.id < y.id := below _ (mem_of_findBinding found)
          omega
      next => rfl

/-- The first of the given bindings is a new one for the others when they are renamed. -/
theorem get?_renamed_first {binding : Binding}
    (ordered : (binding :: bindings).Pairwise fun a b => b.1.id < a.1.id) :
    (renamed π bindings).get? (π binding.1) = none := by
  obtain ⟨below, ordered⟩ := List.pairwise_cons.1 ordered
  rw [get?_renamed ordered]
  cases found : findBinding binding.1 bindings with
  | none => rfl
  | some t =>
    -- The variables stand in descending order, so the first one is not among the others.
    have smaller := below _ (mem_of_findBinding found)
    exact absurd smaller (Nat.lt_irrefl _)

/-- A renamed variable is bound to the renamed term, and a free one is free under its new name. -/
@[simp] theorem get?_rename (π : Var ↪ Var) (s : Substitution) (x : Var) :
    (s.rename π).get? (π x) = (s.get? x).map (·.map π) :=
  get?_renamed s.ordered x

/-- Renaming binds no variable that nothing is renamed to. -/
theorem get?_rename_of_new (s : Substitution) {y : Var} (new : ∀ x, π x ≠ y) :
    (s.rename π).get? y = none :=
  get?_renamed_of_new new

/-- As many variables are bound under the new names. -/
@[simp] theorem size_rename (π : Var ↪ Var) (s : Substitution) : (s.rename π).size = s.size := by
  have general : ∀ bindings : List Binding, (bindings.Pairwise fun a b => b.1.id < a.1.id) →
      (renamed π bindings).size = bindings.length := by
    intro bindings ordered
    induction bindings with
    | nil => rfl
    | cons binding rest ih =>
      -- The bindings are put in one by one, and each is new to the ones before it.
      rw [renamed, List.foldr_cons, ← renamed, size_extend (get?_renamed_first ordered),
        ih ordered.of_cons, List.length_cons]
  exact general s.entries s.ordered

/-- Renamed terms have as many nodes in all. -/
@[simp] theorem weight_rename (π : Var ↪ Var) (s : Substitution) :
    (s.rename π).weight = s.weight := by
  have general : ∀ bindings : List Binding, (bindings.Pairwise fun a b => b.1.id < a.1.id) →
      (renamed π bindings).weight = bindingWeight bindings := by
    intro bindings ordered
    induction bindings with
    | nil => rfl
    | cons binding rest ih =>
      -- The same induction, with the nodes of the terms in place of the number of bindings.
      rw [renamed, List.foldr_cons, ← renamed, weight_extend (get?_renamed_first ordered),
        ih ordered.of_cons, Term.size_map]
      simp only [bindingWeight]
      omega
  rw [rename, general s.entries s.ordered, ← s.weighed]

/-- A binding can be made before or after renaming. -/
theorem rename_extend (π : Var ↪ Var) (s : Substitution) (x : Var) (t : Term Var) :
    (s.extend x t).rename π = (s.rename π).extend (π x) (t.map π) := by
  -- Both sides are compared at each variable, and the ones that nothing is renamed to are free on both.
  refine ext_get? fun y => ?_
  by_cases named : ∃ z, π z = y
  · obtain ⟨z, rfl⟩ := named
    rw [get?_rename, get?_extend, get?_extend, get?_rename, if_congr π.injective.eq_iff rfl rfl]
    split <;> rfl
  · have new : ∀ z, π z ≠ y := fun z same => named ⟨z, same⟩
    rw [get?_rename_of_new _ new, get?_extend, if_neg (Ne.symm (new x)), get?_rename_of_new _ new]

/-- Following bindings leads from a renamed term to the renamed end, if there is one. -/
theorem walk?_rename (π : Var ↪ Var) (s : Substitution) (t : Term Var) :
    (s.rename π).walk? (t.map π) = (s.walk? t).map (·.map π) := by
  -- Both walks have the same number of lookups, and each of one is one of the other.
  rw [walk?, walk?, weight_rename]
  induction s.weight + 1 generalizing t with
  | zero => cases t <;> rfl
  | succ lookups ih =>
    cases t with
    | var x =>
      rw [Term.map_var, walkWithin?, walkWithin?, get?_rename]
      cases s.get? x with
      | none => rfl
      | some u => exact ih u
    | _ => rfl

/-- A renamed term stands for the renamed value. -/
theorem walkStar_rename (π : Var ↪ Var) (s : Substitution) (t : Term Var) :
    (s.rename π).walkStar (t.map π) = (s.walkStar t).map π := by
  -- Both sides may follow the same number of hops, and each hop renames the term it comes to.
  rw [walkStar, walkStar, size_rename]
  induction s.size generalizing t with
  | zero => exact Term.resolve_map (fun x => rfl) t
  | succ hops ih =>
    refine Term.resolve_map (fun x => ?_) t
    rw [get?_rename]
    cases s.get? x with
    | none => rfl
    | some u => exact ih u

end Substitution

end Relational
