import Relational.Proofs.State.Stability
import Relational.Proofs.Substitution.Scope
import Relational.Proofs.Term.Value

/-! Learning: later states in which something more is known, and nothing else has changed. -/

namespace Relational

open Relation (ReflTransGen)

/-- Whatever comes in for a variable of a term occurs in the resolved term. -/
theorem Term.mem_vars_resolve {f : Var → Term Var} {t : Term Var} {x y : Var} (member : x ∈ t.vars)
    (there : y ∈ (f x).vars) : y ∈ (t.resolve f).vars := by
  induction t with
  -- By induction on the term, along the way to the variable.
  | var z => rwa [← List.mem_singleton.1 member]
  | pair a d first rest => exact List.mem_append.2 ((List.mem_append.1 member).imp first rest)
  | expr l op r left right =>
    have inside := (List.mem_append.1 member).imp left right
    rw [resolve, evaluated]
    cases value : op.evaluate (l.resolve f) (r.resolve f) with
    | error e => exact List.mem_append.2 inside
    | ok result =>
      -- An expression with a value has no variables in its operands.
      obtain ⟨lhs, rhs, _⟩ := (Operator.evaluate_eq_ok_iff.1 value).isAtom
      simp [vars_of_isAtom lhs, vars_of_isAtom rhs] at inside
  | _ => cases member

/-- A variable that has been allocated is none of those that come later. -/
theorem Var.ne_later {x : Var} {n : Nat} (old : x.id < n) (i : Nat) : x ≠ ⟨n + i⟩ := by
  intro same
  -- It has a lower number than any of those.
  simp only [same] at old
  omega

/-- A value has no variables that could be out of bounds. -/
theorem Value.below_term (v : Value) (n : Nat) : v.term.Below n := by
  intro x occurs
  -- There are no variables in a value.
  rw [vars_term] at occurs
  cases occurs

/-- A free variable that a term depends on occurs in what the term stands for. -/
theorem Substitution.mem_vars_walkStar {s : Substitution} {t : Term Var} {x y : Var}
    (acyclic : s.Acyclic) (free : s.get? x = none) (member : y ∈ t.vars)
    (path : ReflTransGen s.DependsOn y x) : x ∈ (s.walkStar t).vars := by
  have ofVar : ∀ {y : Var}, ReflTransGen s.DependsOn y x → x ∈ (s.walkStar (.var y)).vars := by
    -- The induction is on the path: what a variable is bound to leads to the same end.
    intro y path
    induction path using ReflTransGen.head_induction_on with
    | refl =>
      rw [walkStar_of_free free]
      exact List.mem_singleton.2 rfl
    | head depends _ ih =>
      obtain ⟨u, bound, occurs⟩ := depends
      rw [walkStar_var_of_bound acyclic bound, walkStar_eq_resolve]
      exact Term.mem_vars_resolve occurs ih
  -- The variable of the term that the path begins at brings its end along.
  rw [walkStar_eq_resolve]
  exact Term.mem_vars_resolve member (ofVar path)

namespace State

variable {s s' : State} {u v t value : Term Var} {x : Var} {depth : Nat}

/-- A state without cycles, all of whose variables have been allocated. -/
structure Tidy (s : State) : Prop where
  acyclic : s.bindings.Acyclic
  allocated : s.bindings.Below s.nextVar

/-- A later state, for which no variable was used, of those that had been allocated, but some. -/
structure Uses (s : State) (used : Var → Prop) (s' : State) : Prop where
  tidy : s'.Tidy
  keeps : s'.bindings.Extends s.bindings
  counts : s.nextVar ≤ s'.nextVar
  others : ∀ y : Var, y.id < s.nextVar → s.bindings.get? y = none → ¬ used y →
    s'.bindings.get? y = none

/-- A term has got a value, for which no variable was used but those it stood for. -/
structure Learns (s : State) (u value : Term Var) (s' : State) : Prop
    extends Uses s (· ∈ (s.walkStar u).vars) s' where
  value : s'.walkStar u = value

/-- A run starts in a tidy state. -/
theorem tidy_start (count : Nat) : (State.empty.freshVars count).2.Tidy :=
  -- A run has no bindings when it starts.
  ⟨Substitution.acyclic_empty, Substitution.below_empty⟩

/-- A tracked variable stands for itself when a run starts. -/
theorem walkStar_start (count : Nat) (x : Var) :
    (State.empty.freshVars count).2.walkStar (.var x) = .var x :=
  -- Nothing is bound yet.
  Substitution.walkStar_of_free rfl

/-- The variables that a term stands for do not stand for anything else. -/
theorem Tidy.free_of_mem (tidy : s.Tidy) (occurs : x ∈ (s.walkStar t).vars) :
    s.bindings.get? x = none :=
  -- Terms are resolved as far as the bindings go.
  (tidy.acyclic.resolved_walkStar t).free x occurs

/-- A variable that has not been allocated is free. -/
theorem Tidy.free_of_le (tidy : s.Tidy) (new : s.nextVar ≤ x.id) : s.bindings.get? x = none := by
  cases bound : s.bindings.get? x with
  | none => rfl
  | some t =>
    -- Only allocated variables are bound.
    have old := (tidy.allocated x t bound).1
    omega

/-- A variable that has not been allocated stands for itself. -/
theorem Tidy.walkStar_new (tidy : s.Tidy) (new : s.nextVar ≤ x.id) : s.walkStar (.var x) = .var x :=
  Substitution.walkStar_of_free (tidy.free_of_le new)

/-- A variable that has not been allocated occurs nowhere. -/
theorem Tidy.not_mem_of_le (tidy : s.Tidy) (below : t.Below s.nextVar) (new : s.nextVar ≤ x.id) :
    x ∉ (s.walkStar t).vars := by
  intro occurs
  -- Resolving a term brings in allocated variables only.
  have old := tidy.allocated.walkStar below x occurs
  omega

/-- A term stands for the same as before if the variables it stood for are still free. -/
theorem Tidy.walkStar_eq (tidy : s.Tidy) (acyclic : s'.bindings.Acyclic)
    (keeps : s'.bindings.Extends s.bindings)
    (free : ∀ y ∈ (s.walkStar t).vars, s'.bindings.get? y = none) :
    s'.walkStar t = s.walkStar t := by
  -- The term may be resolved early, and in what comes of it nothing is left to resolve.
  have early : s'.walkStar (s.walkStar t) = s'.walkStar t :=
    Substitution.walkStar_walkStar acyclic keeps t
  rw [← early]
  exact Substitution.Resolved.walkStar_eq ⟨free, (tidy.acyclic.resolved_walkStar t).reduced⟩

/-- A term that stands for a value stands for it in every later state. -/
theorem walkStar_value_of_keeps {w : Value} (acyclic : s'.bindings.Acyclic)
    (keeps : s'.bindings.Extends s.bindings) (stands : s.walkStar t = w.term) :
    s'.walkStar t = w.term := by
  -- The later state stands for what the earlier one has said, and a value has nothing to be resolved.
  have early : s'.walkStar (s.walkStar t) = s'.walkStar t :=
    Substitution.walkStar_walkStar acyclic keeps t
  rw [← early, stands]
  exact w.walkStar_term _

namespace Uses

variable {used used' : Var → Prop} {middle : State}

/-- Nothing is used to stay in a state. -/
theorem refl (tidy : s.Tidy) : s.Uses used s :=
  -- No binding is made, so every variable that was free is free.
  ⟨tidy, .refl _, Nat.le_refl _, fun _ _ free _ => free⟩

/-- Allocating variables uses none of the earlier ones. -/
theorem freshVars (tidy : s.Tidy) (count : Nat) : s.Uses used (s.freshVars count).2 :=
  -- The new variables are not bound yet, and the earlier ones stay as they were.
  ⟨⟨tidy.acyclic, tidy.allocated.mono (Nat.le_add_right _ _)⟩, .refl _, Nat.le_add_right _ _,
    fun _ _ free _ => free⟩

/-- Two steps together use what one of them uses. -/
theorem trans (first : s.Uses used middle) (second : middle.Uses used' s')
    (covered : ∀ y : Var, y.id < s.nextVar → used' y → used y) : s.Uses used s' where
  tidy := second.tidy
  keeps := second.keeps.trans first.keeps
  counts := first.counts.trans second.counts
  others y allocated free unused :=
    -- A variable that neither step has used is free in the middle, and then in the end.
    second.others y (allocated.trans_le first.counts) (first.others y allocated free unused)
      fun later => unused (covered y allocated later)

/-- What is used may be counted more generously. -/
theorem mono (uses : s.Uses used s') (more : ∀ y : Var, y.id < s.nextVar → used y → used' y) :
    s.Uses used' s' :=
  { uses with
    others := fun y allocated free unused =>
      -- A variable that was not used in the wider sense was not used in the narrower one.
      uses.others y allocated free fun there => unused (more y allocated there) }

/-- A variable that was not used still stands for itself. -/
theorem walkStar_var (uses : s.Uses used s') (allocated : x.id < s.nextVar)
    (free : s.bindings.get? x = none) (unused : ¬ used x) : s'.walkStar (.var x) = .var x :=
  Substitution.walkStar_of_free (uses.others x allocated free unused)

/-- A term none of whose variables was used stands for the same as before. -/
theorem walkStar_eq (uses : s.Uses used s') (tidy : s.Tidy) (below : t.Below s.nextVar)
    (unused : ∀ y ∈ (s.walkStar t).vars, ¬ used y) : s'.walkStar t = s.walkStar t :=
  tidy.walkStar_eq uses.tidy.acyclic uses.keeps fun y occurs =>
    -- The variables in question are allocated and free, and so they are free in the later state.
    uses.others y (tidy.allocated.walkStar below y occurs) (tidy.free_of_mem occurs)
      (unused y occurs)

/-- An unknown stays as it is if its variable was not used. -/
theorem walkStar_unknown (uses : s.Uses used s') (tidy : s.Tidy) (below : t.Below s.nextVar)
    (unknown : s.walkStar t = .var x) (unused : ¬ used x) : s'.walkStar t = .var x := by
  -- The variable is the only one in what the term stands for.
  rw [uses.walkStar_eq tidy below, unknown]
  rw [unknown]
  intro y occurs
  rwa [List.mem_singleton.1 occurs]

/-- A value that is known stays known. -/
theorem walkStar_value {w : Value} (uses : s.Uses used s') (stands : s.walkStar t = w.term) :
    s'.walkStar t = w.term :=
  walkStar_value_of_keeps uses.tidy.acyclic uses.keeps stands

end Uses

/-- What an unknown learns is found out without using any other variable. -/
theorem Learns.uses_var (learns : s.Learns u value s') (unknown : s.walkStar u = .var x) :
    s.Uses (· = x) s' := by
  refine learns.toUses.mono fun y _ occurs => ?_
  -- The variable is all that there was to use.
  rw [unknown] at occurs
  exact List.mem_singleton.1 occurs

/-- A free variable learns the value of the term it is bound to, unless it occurs in it. -/
theorem learns_bind (tidy : s.Tidy) (stands : s.walkStar u = .var x)
    (left : u.Below s.nextVar) (right : v.Below s.nextVar) (absent : x ∉ (s.walkStar v).vars) :
    s.Learns u (s.walkStar v) (s.bind x (s.walk v)) := by
  have occurs : x ∈ (s.walkStar u).vars := by
    rw [stands]
    exact List.mem_singleton.2 rfl
  have free : s.bindings.get? x = none := tidy.free_of_mem occurs
  -- The two are not the same variable, or the term would stand for what occurs in it.
  have apart : s.walk v ≠ .var x := by
    intro walked
    rw [walkStar_eq_var tidy.acyclic walked] at absent
    exact absent (List.mem_singleton.2 rfl)
  have unified : Unifies s u v (s.bind x (s.walk v)) :=
    .bindLeft (walk_eq_var tidy.acyclic stands) free apart
  -- Only the one variable is bound.
  have others : ∀ y, s.bindings.get? y = none → y ≠ x →
      (s.bind x (s.walk v)).bindings.get? y = none := by
    intro y unbound different
    rw [bind, Substitution.get?_extend, if_neg different, unbound]
  have acyclic : (s.bind x (s.walk v)).bindings.Acyclic := by
    -- A cycle would lead from the value back to the variable, which does not occur in it.
    refine tidy.acyclic.extend fun y member path => absent ?_
    rw [← walkStar_walk_self tidy.acyclic]
    exact Substitution.mem_vars_walkStar tidy.acyclic free member path
  refine ⟨⟨⟨acyclic, ?_⟩, unified.extends, Nat.le_refl _, fun y _ unbound unused => ?_⟩, ?_⟩
  · exact tidy.allocated.extend (tidy.allocated.walkStar left x occurs) (tidy.allocated.walk right)
  · exact others y unbound fun same => unused (same ▸ occurs)
  · -- Both sides are equal now, and nothing new is known of the variables on the right.
    have same : (s.bind x (s.walk v)).walkStar u = (s.bind x (s.walk v)).walkStar v :=
      unified.walkStar_eq acyclic (.refl _)
    rw [same]
    exact tidy.walkStar_eq acyclic unified.extends fun y inside =>
      others y (tidy.free_of_mem inside) fun same => absent (same ▸ inside)

end State

end Relational
