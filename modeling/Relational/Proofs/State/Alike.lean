import Relational.Proofs.State.Orientation
import Relational.Proofs.Stream.Lockstep
import Relational.Proofs.Substitution.Agreement

/-! Unification problems that are alike: the same states and terms, up to labels of the variables. -/

namespace Relational.State

open Substitution (Agree Joins exists_joins)

variable {s s' : State} {u v u' v' : Term Var} {c : Var → Var} {depth n : Nat} {turned : Bool}

/-- Two states agree under labels that come of the given ones. -/
def Matches (c : Var → Var) (s s' : State) : Prop :=
  ∃ f : Var → Var, Agree (f ∘ c) s.bindings s'.bindings

/-- Labels that come of later ones come of the earlier ones too. -/
theorem Matches.of_comp {f : Var → Var} (matched : Matches (f ∘ c) s s') : Matches c s s' := by
  obtain ⟨g, agree⟩ := matched
  -- Coarser labels than the later ones are coarser than the earlier ones.
  exact ⟨g ∘ f, agree⟩

/-- States that agree match as they are. -/
theorem matches_of_agree (agree : Agree c s.bindings s'.bindings) : Matches c s s' :=
  -- No labels have to be joined for it.
  ⟨id, agree⟩

/-- Two searches go on in lockstep, as far as some number of forcings goes, and their states match. -/
abbrev InStep (c : Var → Var) (n : Nat) (found found' : Stream Empty State) : Prop :=
  Stream.Lockstep Stream.noJobs Stream.noJobs (Matches c) n found found'

/-- States and pairs of terms that are the same up to labels. -/
structure Alike (c : Var → Var) (s : State) (u v : Term Var) (s' : State) (u' v' : Term Var) :
    Prop where
  agree : Agree c s.bindings s'.bindings
  left : u.map c = u'.map c
  right : v.map c = v'.map c

namespace Alike

/-- The terms may be named in either order. -/
theorem swap (alike : Alike c s u v s' u' v') : Alike c s v u s' v' u' :=
  ⟨alike.agree, alike.right, alike.left⟩

/-- Walked terms are alike. -/
theorem walk_left (alike : Alike c s u v s' u' v') : (s.walk u).map c = (s'.walk u').map c :=
  -- Walked terms are what is seen of the terms, and states that agree show the same.
  alike.agree.view_eq alike.left

/-- Where one term is walked to a variable, the other is too, and to one with the same label. -/
theorem exists_var {x : Var} (alike : Alike c s u v s' u' v') (walked : s.walk u = .var x) :
    ∃ x', s'.walk u' = .var x' ∧ c x' = c x ∧ s.bindings.get? x = none ∧
      s'.bindings.get? x' = none := by
  have same := alike.walk_left
  rw [walked] at same
  -- A walk ends at a free variable on both sides.
  obtain ⟨x', walked', label⟩ := Term.eq_var_of_map same.symm
  exact ⟨x', walked', label, alike.agree.left.settled.get?_eq_none walked,
    alike.agree.right.settled.get?_eq_none walked'⟩

/-- Where one term is walked to no variable, neither is the other. -/
theorem known (alike : Alike c s u v s' u' v') (known : ∀ x, s.walk u ≠ .var x) :
    ∀ x, s'.walk u' ≠ .var x :=
  -- What is walked to no variable has a label of another kind.
  Term.known_of_map_eq alike.walk_left known

/-- Terms that are alike are expressions or not together. -/
theorem isExpr_eq (alike : Alike c s u v s' u' v') :
    (s'.walk u').isExpr = (s.walk u).isExpr :=
  -- Labels do not change what kind of term it is.
  Term.isExpr_eq_of_map_eq alike.walk_left

/-- Terms that are alike have to be resolved together. -/
theorem resolves (alike : Alike c s u v s' u' v') (resolves : s.Resolves u v) :
    s'.Resolves u' v' where
  left := alike.known resolves.left
  right := alike.swap.known resolves.right
  involved := by
    -- It takes an expression on one of the sides, and each side is one if its counterpart is.
    rw [alike.isExpr_eq, alike.swap.isExpr_eq]
    exact resolves.involved

/-- Resolved terms are alike. -/
theorem walkStar_left (alike : Alike c s u v s' u' v')
    (resolvable : s.bindings.Resolvable (s.walk u)) :
    (s.walkStar (s.walk u)).map c = (s'.walkStar (s'.walk u')).map c :=
  -- What terms stand for is the same up to labels, as long as it can be resolved at all.
  alike.agree.walkStar_map_eq alike.walk_left resolvable

/-- Two variables are bound to each other, each way round in its own order. -/
theorem lockstep_vars {x y : Var} (alike : Alike c s u v s' u' v') (left : s.walk u = .var x)
    (right : s.walk v = .var y) :
    InStep c n (unifyTurned false (depth + 1) s u v) (unifyTurned turned (depth + 1) s' u' v') := by
  obtain ⟨x', left', labelLeft, free, free'⟩ := alike.exists_var left
  obtain ⟨y', right', labelRight, target, target'⟩ := alike.swap.exists_var right
  by_cases same : x = y
  · -- One variable on both sides has one label, which only one free variable has.
    subst same
    have same' : x' = y' :=
      alike.agree.right.distinct x' y' free' target' (labelLeft.trans labelRight.symm)
    subst same'
    rw [unifyTurned_sameVar false left right free, unifyTurned_sameVar turned left' right' free']
    exact .singleton (matches_of_agree alike.agree)
  · -- Different free variables have different labels on either side.
    have apart' : x' ≠ y' := by
      rintro rfl
      exact same (alike.agree.left.distinct x y free target (labelLeft.symm.trans labelRight))
    -- Joined labels hide which of the two variables is bound to the other.
    obtain ⟨f, joins⟩ := exists_joins (c x) (c y)
    have joins' : Joins f (c x') (c y') := by rwa [labelLeft, labelRight]
    rw [unifyTurned_vars false left right free target same,
      unifyTurned_vars turned left' right' free' target' apart']
    refine .singleton ⟨f, ?_⟩
    cases turned with
    | false => exact alike.agree.bindVar free target same free' target' apart' joins joins'
    | true =>
      exact alike.agree.bindVar free target same target' free' (Ne.symm apart') joins joins'.symm

/-- A variable is bound to a known term, and its counterpart to one that is alike. -/
theorem lockstep_knownRight {first : Bool} {x : Var} (alike : Alike c s u v s' u' v')
    (left : s.walk u = .var x) (known : ∀ y, s.walk v ≠ .var y) :
    InStep c n (unifyTurned first (depth + 1) s u v) (unifyTurned turned (depth + 1) s' u' v') := by
  -- The counterpart of the variable is free, and its term no variable, so it is bound as well.
  obtain ⟨x', left', label, free, free'⟩ := alike.exists_var left
  rw [unifyTurned_knownRight first left free known,
    unifyTurned_knownRight turned left' free' (alike.swap.known known)]
  exact .singleton (matches_of_agree
    (alike.agree.bindKnown free free' label.symm known alike.swap.walk_left))

/-- Leaves are equal if and only if their counterparts are. -/
theorem lockstep_leaves (alike : Alike c s u v s' u' v') (left : ∀ x, s.walk u ≠ .var x)
    (right : ∀ y, s.walk v ≠ .var y)
    (notPairs : ∀ a d a' d', s.walk u = .pair a d → s.walk v ≠ .pair a' d')
    (plain : ¬ ((s.walk u).isExpr = true ∨ (s.walk v).isExpr = true)) :
    InStep c n (unifyTurned false (depth + 1) s u v) (unifyTurned turned (depth + 1) s' u' v') := by
  -- Pairs on the other side would be counterparts of pairs.
  have notPairs' : ∀ a d a' d', s'.walk u' = .pair a d → s'.walk v' ≠ .pair a' d' := by
    intro a d a' d' leftPair rightPair
    obtain ⟨_, _, before, _⟩ := Term.eq_pair_of_map (alike.walk_left.trans (congrArg _ leftPair))
    obtain ⟨_, _, after, _⟩ :=
      Term.eq_pair_of_map (alike.swap.walk_left.trans (congrArg _ rightPair))
    exact notPairs _ _ _ _ before after
  have plain' : ¬ ((s'.walk u').isExpr = true ∨ (s'.walk v').isExpr = true) := by
    rwa [alike.isExpr_eq, alike.swap.isExpr_eq]
  -- One of the two is no pair, and then it has no variables that could be labelled.
  have equal : s.walk u = s.walk v ↔ s'.walk u' = s'.walk v' := by
    by_cases pair : ∃ a d, s.walk u = .pair a d
    · obtain ⟨a, d, leftPair⟩ := pair
      have closed : (s.walk v).vars = [] :=
        Term.vars_of_leaf right (fun a' d' => notPairs a d a' d' leftPair)
          fun expression => plain (.inr expression)
      rw [eq_comm, Term.eq_iff_of_map_eq alike.swap.walk_left alike.walk_left closed, eq_comm]
    · have closed : (s.walk u).vars = [] :=
        Term.vars_of_leaf left (fun a d leftPair => pair ⟨a, d, leftPair⟩)
          fun expression => plain (.inl expression)
      exact Term.eq_iff_of_map_eq alike.walk_left alike.swap.walk_left closed
  rw [unifyTurned_leaves false left right notPairs plain,
    unifyTurned_leaves turned (alike.known left) (alike.swap.known right) notPairs' plain']
  by_cases same : s.walk u = s.walk v
  · -- Both runs end with the state they began with, or both fail.
    rw [if_pos same, if_pos (equal.1 same)]
    exact .singleton (matches_of_agree alike.agree)
  · rw [if_neg same, if_neg fun same' => same (equal.2 same')]
    exact .empty

end Alike

end Relational.State
