import Relational.Proofs.State.Symmetry
import Relational.Proofs.Substitution.Renaming

/-! Renamed states: unification takes the same steps under other names, to the renamed states. -/

namespace Relational

namespace Operator

variable {op : Operator} {known result : Term Var} {candidates : LazyList (Term Var)}
  {c : Var → Var}

/-- Candidates for the left operand are the same whatever variables of the right one are called. -/
theorem solveLhs_map : op.solveLhs (known.map c) result = .ok candidates ↔
    op.solveLhs known result = .ok candidates := by
  -- There are candidates only for an atom, which is the same under any names.
  constructor
  · intro solved
    have atom := isAtom_of_solveLhs solved
    rw [Term.isAtom_map] at atom
    rwa [Term.map_of_isAtom atom] at solved
  · intro solved
    rwa [Term.map_of_isAtom (isAtom_of_solveLhs solved)]

/-- Candidates for the right operand are the same whatever variables of the left one are called. -/
theorem solveRhs_map : op.solveRhs (known.map c) result = .ok candidates ↔
    op.solveRhs known result = .ok candidates := by
  constructor
  · intro solved
    -- Whatever is solved with is an atom, under either name, and atoms are not changed by renaming.
    have atom := isAtom_of_solveRhs solved
    rw [Term.isAtom_map] at atom
    rwa [Term.map_of_isAtom atom] at solved
  · intro solved
    rwa [Term.map_of_isAtom (isAtom_of_solveRhs solved)]

end Operator

namespace State

variable {π : Var ↪ Var} {s : State} {u v : Term Var} {depth n : Nat}

/-- A state with every variable renamed, the next unused one included. -/
def rename (π : Var → Var) (s : State) : State :=
  ⟨s.bindings.rename π, (π ⟨s.nextVar⟩).id⟩

/-- A search goes on in lockstep with another one, which finds the renamed states. -/
abbrev Mirrors (π : Var → Var) (n : Nat) (found found' : Stream Empty State) : Prop :=
  Stream.Lockstep Stream.noJobs Stream.noJobs (fun s s' => s.rename π = s') n found found'

/-- A renamed term is walked to the renamed end, if there is one. -/
theorem walk?_rename (π : Var ↪ Var) (s : State) (t : Term Var) :
    (s.rename π).walk? (t.map π) = (s.walk? t).map (·.map π) :=
  s.bindings.walk?_rename π t

/-- A renamed term is resolved to the renamed value. -/
theorem walkStar_rename (π : Var ↪ Var) (s : State) (t : Term Var) :
    (s.rename π).walkStar (t.map π) = (s.walkStar t).map π :=
  s.bindings.walkStar_rename π t

/-- A renamed state says of a renamed term what the state says of the term. -/
theorem reify_rename (π : Var ↪ Var) (s : State) (t : Term Var) :
    (s.rename π).reify (t.map π) = s.reify t := by
  -- An answer does not tell variables apart, so the new names do not show in it.
  rw [reify, reify, walkStar_rename, Answer.ofTerm_map]

/-- Whether an operand is unknown does not depend on names. -/
theorem isUnknown_map (c : Var → Var) (t : Term Var) : isUnknown (t.map c) = isUnknown t := by
  cases t <;> rfl

/-- A variable is bound under its new name. -/
theorem rename_bind (π : Var ↪ Var) (s : State) (x : Var) (t : Term Var) :
    (s.bind x t).rename π = (s.rename π).bind (π x) (t.map π) := by
  -- Bindings can be renamed before or after the new one is made.
  rw [bind, bind, rename, Substitution.rename_extend]
  rfl

/-- Unification up to a depth is mirrored, whatever the state and the terms. -/
def MirroredWithin (π : Var → Var) (depth : Nat) : Prop :=
  ∀ (n : Nat) (s : State) (u v : Term Var),
    Mirrors π n (unifyWithin depth s u v) (unifyWithin depth (s.rename π) (u.map π) (v.map π))

namespace MirroredWithin

/-- One unification after another is mirrored. -/
theorem sequence (mirrored : MirroredWithin π depth) (s : State) (a b d e : Term Var) :
    Mirrors π n ((unifyWithin depth s a b).flatMap fun middle => unifyWithin depth middle d e)
      ((unifyWithin depth (s.rename π) (a.map π) (b.map π)).flatMap fun middle =>
        unifyWithin depth middle (d.map π) (e.map π)) := by
  -- The states in between are renamed states, so the second unification starts from one, too.
  refine (mirrored n s a b).flatMap ?_
  rintro middle _ rfl
  exact mirrored n middle d e

/-- The same candidates are tried, and each of them is mirrored. -/
theorem tryCandidates {outcome outcome' : Except EvalError (LazyList (Term Var))}
    (mirrored : MirroredWithin π depth) (s : State) (operand : Term Var)
    (listed : ∀ candidates, outcome' = .ok candidates ↔ outcome = .ok candidates)
    (atoms : ∀ candidates, outcome = .ok candidates →
      ∀ candidate ∈ candidates.toList, candidate.isAtom = true) :
    Mirrors π n (tryCandidates (unifyWithin depth) s operand outcome)
      (State.tryCandidates (unifyWithin depth) (s.rename π) (operand.map π) outcome') := by
  cases outcome with
  -- An error gives nothing, and both runs have one or neither has.
  | error e =>
    cases outcome' with
    | error e' => exact .empty
    | ok candidates => cases (listed candidates).1 rfl
  | ok candidates =>
    obtain rfl := (listed candidates).2 rfl
    refine LazyList.lockstep_flatMap candidates fun candidate member => ?_
    -- A candidate has no variables, so it is its own image.
    have unchanged : candidate.map π = candidate :=
      Term.map_of_isAtom (atoms candidates rfl candidate member)
    have step := mirrored n s operand candidate
    rwa [unchanged] at step

/-- An expression is solved for the same unknown, with the same candidates. -/
theorem solve (mirrored : MirroredWithin π depth) (s : State) (l r result : Term Var)
    (op : Operator) :
    Mirrors π n (solve (unifyWithin depth) s l op r result)
      (State.solve (unifyWithin depth) (s.rename π) (l.map π) op (r.map π) (result.map π)) := by
  unfold State.solve
  -- The branches ask only for the sorts of the operands and of the result, which renaming keeps.
  rw [Term.isAtom_map, isUnknown_map, isUnknown_map]
  by_cases atom : result.isAtom = true
  · rw [if_pos atom, if_pos atom, Term.map_of_isAtom atom]
    cases isUnknown l with
    | true =>
      cases isUnknown r with
      | true => exact .empty
      | false =>
        exact mirrored.tryCandidates s l (fun _ => Operator.solveLhs_map)
          ((op.solveLhs_solves r result).isAtom fun x computes => computes.isAtom.1)
    | false =>
      cases isUnknown r with
      | true =>
        exact mirrored.tryCandidates s r (fun _ => Operator.solveRhs_map)
          ((op.solveRhs_solves l result).isAtom fun x computes => computes.isAtom.2.1)
      | false => exact .empty
  · rw [if_neg atom, if_neg atom]
    exact .empty

/-- Resolved terms are unified in the same way under other names. -/
theorem resolved (mirrored : MirroredWithin π depth) (s : State) (u v : Term Var) :
    Mirrors π n (unifyResolved (unifyWithin depth) s u v)
      (unifyResolved (unifyWithin depth) (s.rename π) (u.map π) (v.map π)) := by
  -- Renaming keeps the sort of a term, so the two runs are in the same branch.
  cases u with
  | expr l op r =>
    cases v with
    | expr l' op' r' =>
      rw [Term.map_expr, Term.map_expr, unifyResolved, unifyResolved]
      by_cases same : op = op'
      · rw [if_pos same, if_pos same]
        exact mirrored.sequence s l l' r r'
      · rw [if_neg same, if_neg same]
        exact .empty
    | _ => exact mirrored.solve s l r _ op
  | _ =>
    cases v with
    | expr l op r => exact mirrored.solve s l r _ op
    | _ => exact mirrored n s _ _

/-- Terms other than unknowns and two pairs are compared in the same way under other names. -/
theorem known (mirrored : MirroredWithin π depth) (s : State) (u v : Term Var) :
    Mirrors π n
      (if u.isExpr || v.isExpr then
        unifyResolved (unifyWithin depth) s (s.walkStar u) (s.walkStar v)
      else if u = v then .singleton s else .empty)
      (if (u.map π).isExpr || (v.map π).isExpr then
        unifyResolved (unifyWithin depth) (s.rename π) ((s.rename π).walkStar (u.map π))
          ((s.rename π).walkStar (v.map π))
      else if u.map π = v.map π then .singleton (s.rename π) else .empty) := by
  -- Different terms have different new names, so the comparison has the same outcome.
  rw [Term.isExpr_map, Term.isExpr_map, walkStar_rename, walkStar_rename,
    if_congr (Term.map_injective π.injective).eq_iff rfl rfl]
  by_cases involved : (u.isExpr || v.isExpr) = true
  · rw [if_pos involved, if_pos involved]
    exact mirrored.resolved s (s.walkStar u) (s.walkStar v)
  · rw [if_neg involved, if_neg involved]
    split
    · exact .singleton rfl
    · exact .empty

/-- Walked terms are unified in the same way under other names. -/
theorem walked (mirrored : MirroredWithin π depth) (s : State) (u v : Term Var) :
    Mirrors π n (unifyWalked (unifyWithin depth) s u v)
      (unifyWalked (unifyWithin depth) (s.rename π) (u.map π) (v.map π)) := by
  -- What happens is decided by the sorts of the walked terms, which renaming keeps.
  unfold unifyWalked
  cases u with
  | var x =>
    cases v with
    | var y =>
      refine .singleton ?_
      -- Two variables are the same under the new names if they were the same before.
      rw [if_congr π.injective.eq_iff rfl rfl]
      split
      · rfl
      · exact rename_bind π s x (.var y)
    | _ => exact .singleton (rename_bind π s x _)
  | pair a d =>
    cases v with
    | var y => exact .singleton (rename_bind π s y _)
    | pair a' d' => exact mirrored.sequence s a a' d d'
    | _ => exact mirrored.known s _ _
  | _ =>
    cases v with
    | var y => exact .singleton (rename_bind π s y _)
    | _ => exact mirrored.known s _ _

/-- One more level of unification is mirrored if everything below it is. -/
theorem succ (mirrored : MirroredWithin π depth) : MirroredWithin π (depth + 1) := by
  intro n s u v
  rw [unifyWithin, unifyWithin, walk?_rename, walk?_rename]
  -- A walk under other names ends or goes on for ever as the walk itself does.
  cases s.walk? u with
  | none => exact .empty
  | some a =>
    cases s.walk? v with
    | none => exact .empty
    | some b => exact mirrored.walked s a b

end MirroredWithin

/-- Unification is mirrored at every depth. -/
theorem mirroredWithin (π : Var ↪ Var) (depth : Nat) : MirroredWithin π depth := by
  induction depth with
  | zero =>
    intro n s u v
    -- Without any depth neither run finds anything.
    exact .empty
  | succ depth mirrored => exact mirrored.succ

/-- Renamed terms are unified through the same steps, to the renamed states. -/
theorem mirrors_unify (π : Var ↪ Var) (s : State) (u v : Term Var) :
    Mirrors π n (s.unify u v) ((s.rename π).unify (u.map π) (v.map π)) := by
  -- Sizes do not depend on names, so both runs may go equally deep.
  have depths : (s.rename π).depthBound (u.map π) (v.map π) = s.depthBound u v := by
    simp only [depthBound, rename, Substitution.weight_rename, Term.size_map]
  rw [unify, unify, depths]
  exact mirroredWithin π _ n s u v

/-- Renamed terms can be told apart exactly where the terms can. -/
theorem mirrors_disunify (π : Var ↪ Var) (s : State) (u v : Term Var) :
    Mirrors π n (s.disunify u v) ((s.rename π).disunify (u.map π) (v.map π)) := by
  -- To be told apart is to have no unification, and the unifications are mirrored.
  have together : (s.unify u v).first? = none ↔
      ((s.rename π).unify (u.map π) (v.map π)).first? = none :=
    (mirrors_unify π s u v).first?_eq_none_iff (Nat.le_refl _)
  rw [disunify, disunify]
  cases found : (s.unify u v).first? with
  | none =>
    rw [together.1 found]
    exact .singleton rfl
  | some other =>
    cases found' : ((s.rename π).unify (u.map π) (v.map π)).first? with
    | none => simp [together.2 found'] at found
    | some other' => exact .empty

end State

end Relational
