import Relational.Proofs.Arithmetic.Inverse
import Relational.Proofs.Stream.Reach
import Relational.Proofs.Substitution.Resolve
import Relational.State.Unify

/-! Unification as a derivation: every way in which a unified state can come about. -/

namespace Relational

/-- The items of a mapped stream are those of the images of its items. -/
theorem Stream.mem_members_flatMap {α : Type} {g : α → Stream Empty α} {s : Stream Empty α}
    {b : α} : b ∈ (s.flatMap g).members ↔ ∃ a ∈ s.members, b ∈ (g a).members := by
  -- The items may come in another order, but they are the same ones.
  rw [(Stream.members_flatMap g s).mem_iff, List.mem_flatMap]

/-- The items of a mapped lazy list are those of the images of its items. -/
theorem LazyList.mem_members_flatMap {α β : Type} {g : α → Stream Empty β} {items : LazyList α}
    {b : β} : b ∈ (items.flatMap g).members ↔ ∃ a ∈ items.toList, b ∈ (g a).members := by
  -- Items of the list are joined in turn, and a delay changes none of them.
  induction items with
  | nil => simp [LazyList.flatMap, LazyList.toList, Stream.members]
  | cons a rest ih =>
    rw [LazyList.flatMap, (Stream.members_append _ _).mem_iff, List.mem_append, ih,
      LazyList.toList]
    simp
  | delay rest ih => exact ih ()

/-- One operand of an expression is completed so that the operator computes the result. -/
inductive Operator.Completes (op : Operator) (lhs rhs result : Term Var) :
    Term Var → Term Var → Prop where
  | left {candidate : Term Var} (computes : op.Computes candidate rhs result) :
      Completes op lhs rhs result lhs candidate
  | right {candidate : Term Var} (computes : op.Computes lhs candidate result) :
      Completes op lhs rhs result rhs candidate

namespace State

/--
A state arises from another one by making two terms equal in it.

Each rule is one case of unification, after both terms have been walked.
-/
inductive Unifies : State → Term Var → Term Var → State → Prop where
  /-- Terms that are equal already need nothing. -/
  | same {s : State} {u v : Term Var} (equal : s.walk u = s.walk v) : Unifies s u v s
  /-- A free variable on the left is bound to whatever is on the right. -/
  | bindLeft {s : State} {u v : Term Var} {x : Var} (walked : s.walk u = .var x)
      (free : s.bindings.get? x = none) (apart : s.walk v ≠ .var x) :
      Unifies s u v (s.bind x (s.walk v))
  /-- A free variable on the right is bound to a left side that is no variable. -/
  | bindRight {s : State} {u v : Term Var} {y : Var} (walked : s.walk v = .var y)
      (free : s.bindings.get? y = none) (apart : s.walk u ≠ .var y) :
      Unifies s u v (s.bind y (s.walk u))
  /-- Pairs are unified in the first components, and then in the others. -/
  | pairs {s middle s' : State} {u v a d a' d' : Term Var} (left : s.walk u = .pair a d)
      (right : s.walk v = .pair a' d') (first : Unifies s a a' middle)
      (rest : Unifies middle d d' s') : Unifies s u v s'
  /-- Resolved expressions of one operator are unified in the operands. -/
  | exprs {s middle s' : State} {u v l r l' r' : Term Var} {op : Operator}
      (left : s.walkStar (s.walk u) = .expr l op r) (right : s.walkStar (s.walk v) = .expr l' op r')
      (first : Unifies s l l' middle) (rest : Unifies middle r r' s') : Unifies s u v s'
  /-- A resolved expression on the left is solved for one operand. -/
  | solveLeft {s s' : State} {u v l r operand candidate : Term Var} {op : Operator}
      (left : s.walkStar (s.walk u) = .expr l op r)
      (completes : op.Completes l r (s.walkStar (s.walk v)) operand candidate)
      (rest : Unifies s operand candidate s') : Unifies s u v s'
  /-- A resolved expression on the right is solved for one operand. -/
  | solveRight {s s' : State} {u v l r operand candidate : Term Var} {op : Operator}
      (right : s.walkStar (s.walk v) = .expr l op r)
      (completes : op.Completes l r (s.walkStar (s.walk u)) operand candidate)
      (rest : Unifies s operand candidate s') : Unifies s u v s'
  /-- Expressions that both have a value are unified by their values. -/
  | values {s s' : State} {u v : Term Var}
      (rest : Unifies s (s.walkStar (s.walk u)) (s.walkStar (s.walk v)) s') : Unifies s u v s'

variable {s s' : State} {u v : Term Var}

/-- Every state found by trying candidates comes from one with the property they are listed for. -/
theorem mem_members_tryCandidates {unify : Unifier} {operand : Term Var}
    {property : Term Var → Prop} {outcome : Except EvalError (LazyList (Term Var))}
    (solves : Solves property outcome)
    (member : s' ∈ (tryCandidates unify s operand outcome).members) :
    ∃ candidate, property candidate ∧ s' ∈ (unify s operand candidate).members := by
  cases outcome with
  | error e =>
    -- Without candidates nothing is tried.
    simp [tryCandidates, Stream.members] at member
  | ok candidates =>
    obtain ⟨candidate, listed, found⟩ := LazyList.mem_members_flatMap.1 member
    exact ⟨candidate, (Lists.mem_iff solves candidate).1 listed, found⟩

/-- A state found for a candidate is one for an operand that completes the expression. -/
theorem mem_members_solve {unify : Unifier} {l r result : Term Var} {op : Operator}
    (member : s' ∈ (solve unify s l op r result).members) :
    ∃ operand candidate, op.Completes l r result operand candidate ∧
      s' ∈ (unify s operand candidate).members := by
  -- A result other than an atom gives nothing, and neither do two unknowns or none.
  unfold solve at member
  split at member
  · split at member
    · -- The left operand is missing, and each candidate for it computes the result.
      obtain ⟨candidate, computes, found⟩ :=
        mem_members_tryCandidates (op.solveLhs_solves r result) member
      exact ⟨l, candidate, .left computes, found⟩
    · -- The right operand is missing, and the left one is known.
      obtain ⟨candidate, computes, found⟩ :=
        mem_members_tryCandidates (op.solveRhs_solves l result) member
      exact ⟨r, candidate, .right computes, found⟩
    · simp [Stream.members] at member
    · simp [Stream.members] at member
  · simp [Stream.members] at member

/--
Every state that comes of two walked terms is derived by the rules, if all states further inside are.

A variable that is bound here is free, because a walk goes on from every variable that is not.
-/
theorem unifies_of_mem_unifyWalked {unify : Unifier} {a b : Term Var}
    (sound : ∀ {s s' : State} {u v : Term Var}, s' ∈ (unify s u v).members → Unifies s u v s')
    (leftWalked : s.walk? u = some a) (rightWalked : s.walk? v = some b)
    (member : s' ∈ (unifyWalked unify s a b).members) : Unifies s u v s' := by
  -- The rules are stated about where a walk ends, whatever the number of lookups.
  have left : s.walk u = a := Substitution.walk_eq_of_walk? leftWalked
  have right : s.walk v = b := Substitution.walk_eq_of_walk? rightWalked
  -- Each branch of a step is one rule.
  unfold unifyWalked at member
  split at member
  · -- Two variables: the same one, or the left one is bound to the right one.
    rename_i x y
    simp only [Stream.singleton, Stream.members, List.mem_singleton] at member
    subst member
    split
    · rename_i equal
      exact .same (by rw [left, right, equal])
    · rename_i apart
      rw [← right]
      refine .bindLeft left (Substitution.get?_eq_none_of_walk? leftWalked) ?_
      rw [right]
      intro equal
      exact apart (Term.var.inj equal).symm
  · -- A variable on one side only is bound to the other side.
    rename_i x apart
    simp only [Stream.singleton, Stream.members, List.mem_singleton] at member
    subst member right
    exact .bindLeft left (Substitution.get?_eq_none_of_walk? leftWalked) (apart x)
  · rename_i y apart
    simp only [Stream.singleton, Stream.members, List.mem_singleton] at member
    subst member left
    exact .bindRight right (Substitution.get?_eq_none_of_walk? rightWalked) (apart y)
  · -- States in the middle are those of the first components.
    obtain ⟨middle, first, rest⟩ := Stream.mem_members_flatMap.1 member
    exact .pairs left right (sound first) (sound rest)
  · subst left right
    split at member
    · -- With an expression involved, both sides are resolved before they are compared.
      unfold unifyResolved at member
      split at member
      · rename_i left right
        split at member
        · rename_i equal
          subst equal
          obtain ⟨middle, first, rest⟩ := Stream.mem_members_flatMap.1 member
          exact .exprs left right (sound first) (sound rest)
        · simp [Stream.members] at member
      · rename_i left _
        obtain ⟨operand, candidate, completes, found⟩ := mem_members_solve member
        exact .solveLeft left completes (sound found)
      · rename_i right _
        obtain ⟨operand, candidate, completes, found⟩ := mem_members_solve member
        exact .solveRight right completes (sound found)
      · exact .values (sound member)
    · split at member
      · rename_i equal
        simp only [Stream.singleton, Stream.members, List.mem_singleton] at member
        subst member
        exact .same equal
      · simp [Stream.members] at member

/-- Every state that unification gives is derived by its rules. -/
theorem unifies_of_mem_unifyWithin {depth : Nat}
    (member : s' ∈ (unifyWithin depth s u v).members) : Unifies s u v s' := by
  -- The induction is on the depth, and each step comes after two walks that have ended.
  induction depth generalizing s s' u v with
  | zero => simp [unifyWithin, Stream.members] at member
  | succ depth ih =>
    rw [unifyWithin] at member
    split at member
    · rename_i left right
      exact unifies_of_mem_unifyWalked ih left right member
    · simp [Stream.members] at member

/-- Whatever is reached in a unification is derived by its rules. -/
theorem unifies_of_reached (reached : Stream.Reached Stream.noJobs s' (s.unify u v)) :
    Unifies s u v s' :=
  -- Unification takes no jobs, so what is reached is what is a member.
  unifies_of_mem_unifyWithin (Stream.reached_noJobs_iff.1 reached)

/-- Unification keeps every binding that was there. -/
theorem Unifies.extends (unified : Unifies s u v s') : s'.bindings.Extends s.bindings := by
  -- Bindings are only ever made where a walk has stopped, and it stops at no bound variable.
  induction unified with
  | same _ => exact .refl _
  | bindLeft _ free _ => exact Substitution.extends_extend free _
  | bindRight _ free _ => exact Substitution.extends_extend free _
  | pairs _ _ _ _ first rest => exact rest.trans first
  | exprs _ _ _ _ first rest => exact rest.trans first
  | solveLeft _ _ _ rest => exact rest
  | solveRight _ _ _ rest => exact rest
  | values _ rest => exact rest

end State

end Relational
