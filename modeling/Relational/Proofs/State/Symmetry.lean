import Relational.Answer.Basic
import Relational.Proofs.State.Alike

/-! Unification is symmetric: the order of two terms decides which variable is bound, and nothing else. -/

namespace Relational

open Substitution (Agree)

/-- An answer does not tell variables apart. -/
theorem Answer.ofTerm_map (c : Var → Var) (t : Term Var) : ofTerm (t.map c) = ofTerm t := by
  -- All variables are answered by an unknown, whatever their names are.
  induction t with
  | pair a d first rest => rw [Term.map_pair, ofTerm, ofTerm, first, rest]
  | _ => rfl

/-- Candidates are atoms if nothing else has the property they are listed for. -/
theorem Solves.isAtom {property : Term Var → Prop}
    {outcome : Except EvalError (LazyList (Term Var))} (solves : Solves property outcome)
    (atoms : ∀ x, property x → x.isAtom = true) (candidates : LazyList (Term Var))
    (solved : outcome = .ok candidates) : ∀ x ∈ candidates.toList, x.isAtom = true := by
  subst solved
  intro x member
  -- All candidates have the property that they are listed for.
  exact atoms x ((Lists.mem_iff solves x).1 member)

namespace Operator

variable {op : Operator} {known known' result : Term Var} {candidates : LazyList (Term Var)}
  {c : Var → Var}

/-- Candidates for the left operand are the same for right operands with the same labels. -/
theorem solveLhs_congr (same : known.map c = known'.map c)
    (solved : op.solveLhs known result = .ok candidates) :
    op.solveLhs known' result = .ok candidates := by
  -- An operand that something is solved with is an atom, and an atom has no labels.
  rw [← Term.eq_of_map_eq same (Term.vars_of_isAtom (isAtom_of_solveLhs solved)), solved]

/-- Candidates for the right operand are the same for left operands with the same labels. -/
theorem solveRhs_congr (same : known.map c = known'.map c)
    (solved : op.solveRhs known result = .ok candidates) :
    op.solveRhs known' result = .ok candidates := by
  -- The same for the other side.
  rw [← Term.eq_of_map_eq same (Term.vars_of_isAtom (isAtom_of_solveRhs solved)), solved]

end Operator

namespace State

variable {s s' : State} {u v u' v' : Term Var} {c : Var → Var} {depth n : Nat} {turned : Bool}

/-- A state that unification and fresh variables lead to, starting from nothing. -/
inductive Reachable : State → Prop where
  | empty : Reachable .empty
  | freshVars {s : State} (reachable : Reachable s) (count : Nat) : Reachable (s.freshVars count).2
  | unify {s s' : State} {u v : Term Var} (reachable : Reachable s)
      (reached : Stream.Reached Stream.noJobs s' (s.unify u v)) : Reachable s'

/-- Unification binds a variable to another one only if both are free. -/
theorem Unifies.settled (unified : Unifies s u v s') (settled : s.bindings.Settled) :
    s'.bindings.Settled := by
  -- A new binding goes to a walked term, which is no bound variable.
  induction unified with
  | same _ => exact settled
  | bindLeft _ _ apart => exact settled.extend apart fun y => settled.get?_eq_none
  | bindRight _ _ apart => exact settled.extend apart fun y => settled.get?_eq_none
  | pairs _ _ _ _ first rest => exact rest (first settled)
  | exprs _ _ _ _ first rest => exact rest (first settled)
  | solveLeft _ _ _ rest => exact rest settled
  | solveRight _ _ _ rest => exact rest settled
  | values _ rest => exact rest settled

/-- In a reachable state no variable leads back to itself through variables alone. -/
theorem Reachable.settled (reachable : Reachable s) : s.bindings.Settled := by
  induction reachable with
  | empty => exact Substitution.settled_empty
  -- New variables bind nothing, and unification never closes a chain of variables.
  | freshVars _ _ ih => exact ih
  | unify _ reached ih => exact (unifies_of_reached reached).settled ih

/--
Unification comes to resolve a term that leads into a cycle.

Only expressions make it resolve terms. Pairs and expressions of one operator are the places from
which it goes on to other terms, in the states that it has found by then.
-/
inductive MeetsCycle : State → Term Var → Term Var → Prop where
  | resolving {s : State} {u v : Term Var} (resolves : s.Resolves u v)
      (endless : ¬ (s.bindings.Resolvable (s.walk u) ∧ s.bindings.Resolvable (s.walk v))) :
      MeetsCycle s u v
  | first {s : State} {u v a d a' d' : Term Var} (left : s.walk u = .pair a d)
      (right : s.walk v = .pair a' d') (meets : MeetsCycle s a a') : MeetsCycle s u v
  | rest {s middle : State} {u v a d a' d' : Term Var} {depth : Nat} (left : s.walk u = .pair a d)
      (right : s.walk v = .pair a' d') (found : middle ∈ (unifyWithin depth s a a').members)
      (meets : MeetsCycle middle d d') : MeetsCycle s u v
  | lhs {s : State} {u v l r l' r' : Term Var} {op : Operator}
      (left : s.walkStar (s.walk u) = .expr l op r) (right : s.walkStar (s.walk v) = .expr l' op r')
      (meets : MeetsCycle s l l') : MeetsCycle s u v
  | rhs {s middle : State} {u v l r l' r' : Term Var} {op : Operator} {depth : Nat}
      (left : s.walkStar (s.walk u) = .expr l op r) (right : s.walkStar (s.walk v) = .expr l' op r')
      (found : middle ∈ (unifyWithin depth s l l').members) (meets : MeetsCycle middle r r') :
      MeetsCycle s u v

/-- Unless a cycle is met, terms that have to be resolved can be. -/
theorem resolvable_of_not_meetsCycle (clear : ¬ MeetsCycle s u v) (resolves : s.Resolves u v) :
    s.bindings.Resolvable (s.walk u) ∧ s.bindings.Resolvable (s.walk v) :=
  -- Resolving what cannot be resolved is one of the ways to meet a cycle.
  Classical.byContradiction fun endless => clear (.resolving resolves endless)

/--
No cycle is met once one of two terms is an atom and both can be resolved.

This is how expressions are solved and values compared, so nothing is met there.
-/
theorem not_meetsCycle_of_isAtom (atom : u.isAtom = true ∨ v.isAtom = true)
    (left : s.bindings.Resolvable u) (right : s.bindings.Resolvable v) : ¬ MeetsCycle s u v := by
  -- An atom is walked to itself and stands for itself.
  have walked : ∀ {t : Term Var}, t.isAtom = true → s.walk t = t := by
    intro t atom
    refine Substitution.walk_of_known s.bindings fun x same => ?_
    rw [same] at atom
    cases atom
  have resolved : ∀ {t : Term Var}, t.isAtom = true → s.walkStar (s.walk t) = t := by
    intro t atom
    rw [walked atom, walkStar, Substitution.walkStar_of_isAtom s.bindings atom]
  intro meets
  -- All other rules ask for a pair or an expression on both sides.
  cases meets with
  | resolving _ endless => exact endless ⟨left.walk, right.walk⟩
  | first leftPair rightPair _ | rest leftPair rightPair _ _ =>
    rcases atom with atom | atom
    · rw [walked atom] at leftPair
      simp [leftPair, Term.isAtom] at atom
    · rw [walked atom] at rightPair
      simp [rightPair, Term.isAtom] at atom
  | lhs leftExpr rightExpr _ | rhs leftExpr rightExpr _ _ =>
    rcases atom with atom | atom
    · rw [resolved atom] at leftExpr
      simp [leftExpr, Term.isAtom] at atom
    · rw [resolved atom] at rightExpr
      simp [rightExpr, Term.isAtom] at atom

/-- Unification within a depth takes the same steps in either order, and finds states that match. -/
def SymmetricWithin (depth : Nat) : Prop :=
  ∀ (n : Nat) (turned : Bool) {c : Var → Var} {s s' : State} {u v u' v' : Term Var},
    Alike c s u v s' u' v' → ¬ MeetsCycle s u v →
    InStep c n (unifyTurned false depth s u v) (unifyTurned turned depth s' u' v')

/-- What comes after a first unification takes the same steps in either order, too. -/
theorem SymmetricWithin.sequence {a b d e a' b' d' e' : Term Var}
    (symmetric : SymmetricWithin depth) (first : Alike c s a b s' a' b')
    (left : d.map c = d'.map c) (right : e.map c = e'.map c) (clearFirst : ¬ MeetsCycle s a b)
    (clearRest : ∀ middle ∈ (unifyWithin depth s a b).members, ¬ MeetsCycle middle d e) :
    InStep c n
      ((unifyTurned false depth s a b).flatMap fun middle => unifyTurned false depth middle d e)
      ((unifyTurned turned depth s' a' b').flatMap fun middle =>
        unifyTurned turned depth middle d' e') := by
  -- It is remembered of states in the middle that the first unification has found them.
  have found := (symmetric n turned first clearFirst).imp
    (S := fun m m' => m ∈ (unifyWithin depth s a b).members ∧ Matches c m m')
    fun m m' reached matched => ⟨Stream.reached_noJobs_iff.1 reached, matched⟩
  refine found.flatMap fun m m' both => ?_
  obtain ⟨member, f, agree⟩ := both
  have rest : Alike (f ∘ c) m d e m' d' e' := by
    refine ⟨agree, ?_, ?_⟩
    · rw [← Term.map_map, left, Term.map_map]
    · rw [← Term.map_map, right, Term.map_map]
  exact (symmetric n turned rest (clearRest m member)).imp fun _ _ _ matched => matched.of_comp

/-- Candidates for an operand are tried alike, as they are the same ones. -/
theorem SymmetricWithin.tryCandidates {operand operand' : Term Var}
    {outcome outcome' : Except EvalError (LazyList (Term Var))} (symmetric : SymmetricWithin depth)
    (agree : Agree c s.bindings s'.bindings) (same : operand.map c = operand'.map c)
    (resolvable : s.bindings.Resolvable operand)
    (listed : ∀ candidates, outcome = .ok candidates ↔ outcome' = .ok candidates)
    (atoms : ∀ candidates, outcome = .ok candidates →
      ∀ candidate ∈ candidates.toList, candidate.isAtom = true) :
    InStep c n (tryCandidates (unifyWithin depth) s operand outcome)
      (tryCandidates (unifyWithin depth) s' operand' outcome') := by
  cases outcome with
  -- Both runs solve or both fail, and they have the same candidates.
  | error e =>
    cases outcome' with
    | error e' => exact .empty
    | ok candidates => cases (listed candidates).2 rfl
  | ok candidates =>
    obtain rfl := (listed candidates).1 rfl
    refine LazyList.lockstep_flatMap candidates fun candidate member => ?_
    have atom := atoms candidates rfl candidate member
    have closed : s.bindings.Resolvable candidate := by
      intro x occurs
      rw [Term.vars_of_isAtom atom] at occurs
      cases occurs
    -- Operands are tried in this order, whatever the order of the terms was.
    exact symmetric _ false ⟨agree, same, rfl⟩
      (not_meetsCycle_of_isAtom (.inr atom) resolvable closed)

/-- Terms that are alike are both unknown or both not. -/
theorem isUnknown_eq_of_map_eq {t t' : Term Var} (same : t.map c = t'.map c) :
    isUnknown t' = isUnknown t := by
  -- Renaming maps variables to variables, and everything else to what is none.
  have renamed : ∀ t : Term Var, isUnknown (t.map c) = isUnknown t := by
    intro t
    cases t <;> rfl
  rw [← renamed t', ← same, renamed]

/-- An expression is solved alike: its known operand and the result are atoms, which have no labels. -/
theorem SymmetricWithin.solve {l r result l' r' result' : Term Var} {op : Operator}
    (symmetric : SymmetricWithin depth) (agree : Agree c s.bindings s'.bindings)
    (left : l.map c = l'.map c) (right : r.map c = r'.map c)
    (same : result.map c = result'.map c) (resolvable : s.bindings.Resolvable (.expr l op r)) :
    InStep c n (solve (unifyWithin depth) s l op r result)
      (solve (unifyWithin depth) s' l' op r' result') := by
  have leftResolvable : s.bindings.Resolvable l :=
    fun x occurs => resolvable x (List.mem_append_left _ occurs)
  have rightResolvable : s.bindings.Resolvable r :=
    fun x occurs => resolvable x (List.mem_append_right _ occurs)
  unfold State.solve
  -- The result and the operands are of the same sorts in both runs, so the same branch is taken.
  rw [Term.isAtom_eq_of_map_eq same, isUnknown_eq_of_map_eq left, isUnknown_eq_of_map_eq right]
  by_cases atom : result.isAtom = true
  · obtain rfl := Term.eq_of_map_eq same (Term.vars_of_isAtom atom)
    rw [if_pos atom, if_pos atom]
    cases isUnknown l with
    | true =>
      cases isUnknown r with
      -- With two unknown operands nothing is solved, on either side.
      | true => exact .empty
      | false =>
        refine symmetric.tryCandidates agree left leftResolvable (fun candidates => ?_)
          ((op.solveLhs_solves r result).isAtom fun x computes => computes.isAtom.1)
        exact ⟨Operator.solveLhs_congr right, Operator.solveLhs_congr right.symm⟩
    | false =>
      cases isUnknown r with
      | true =>
        refine symmetric.tryCandidates agree right rightResolvable (fun candidates => ?_)
          ((op.solveRhs_solves l result).isAtom fun x computes => computes.isAtom.2.1)
        exact ⟨Operator.solveRhs_congr left, Operator.solveRhs_congr left.symm⟩
      -- With no unknown operand nothing is solved, either.
      | false => exact .empty
  · rw [if_neg atom, if_neg atom]
    exact .empty

/-- Expressions are unified operand by operand, and only if they have one operator. -/
theorem SymmetricWithin.exprs {l r k q : Term Var} {op op₂ : Operator}
    (symmetric : SymmetricWithin depth) (alike : Alike c s u v s' u' v')
    (clear : ¬ MeetsCycle s u v) (resolves : s.Resolves u v)
    (left : s.walkStar (s.walk u) = .expr l op r) (right : s.walkStar (s.walk v) = .expr k op₂ q) :
    InStep c n (unifyTurned false (depth + 1) s u v) (unifyTurned turned (depth + 1) s' u' v') := by
  obtain ⟨leftResolvable, rightResolvable⟩ := resolvable_of_not_meetsCycle clear resolves
  -- What the terms are resolved to are expressions in both runs, with operands that are alike.
  have sameLeft := alike.walkStar_left leftResolvable
  have sameRight := alike.swap.walkStar_left rightResolvable
  rw [left] at sameLeft
  rw [right] at sameRight
  obtain ⟨l', r', left', sameL, sameR⟩ := Term.eq_expr_of_map sameLeft.symm
  obtain ⟨k', q', right', sameK, sameQ⟩ := Term.eq_expr_of_map sameRight.symm
  rw [unifyTurned_exprs false resolves left right,
    unifyTurned_exprs turned (alike.resolves resolves) left' right']
  -- The operators are those of the same two expressions, compared in either order.
  by_cases same : op = op₂
  · subst same
    rw [if_pos rfl, if_pos rfl]
    refine symmetric.sequence ⟨alike.agree, sameL.symm, sameK.symm⟩ sameR.symm sameQ.symm
      (fun meets => clear (.lhs left right meets)) fun middle found meets => ?_
    exact clear (.rhs left right found meets)
  · rw [if_neg same, if_neg same]
    exact .empty

/-- An expression on one side is solved for the other side, in whichever order they come. -/
theorem SymmetricWithin.solves {first : Bool} {l r : Term Var} {op : Operator}
    (symmetric : SymmetricWithin depth) (alike : Alike c s u v s' u' v') (resolves : s.Resolves u v)
    (leftResolvable : s.bindings.Resolvable (s.walk u))
    (rightResolvable : s.bindings.Resolvable (s.walk v))
    (left : s.walkStar (s.walk u) = .expr l op r)
    (right : (s.walkStar (s.walk v)).isExpr = false) :
    InStep c n (unifyTurned first (depth + 1) s u v) (unifyTurned turned (depth + 1) s' u' v') := by
  -- The expression on one side and the other term are alike in both runs.
  have sameLeft := alike.walkStar_left leftResolvable
  have sameRight := alike.swap.walkStar_left rightResolvable
  rw [left] at sameLeft
  obtain ⟨l', r', left', sameL, sameR⟩ := Term.eq_expr_of_map sameLeft.symm
  have right' := (Term.isExpr_eq_of_map_eq sameRight).trans right
  rw [unifyTurned_solve first resolves left right,
    unifyTurned_solve turned (alike.resolves resolves) left' right']
  have resolvable : s.bindings.Resolvable (.expr l op r) := left ▸ leftResolvable.walkStar
  exact symmetric.solve alike.agree sameL.symm sameR.symm sameRight resolvable

/-- Values are compared with whatever is on the other side. -/
theorem SymmetricWithin.values (symmetric : SymmetricWithin depth)
    (alike : Alike c s u v s' u' v') (resolves : s.Resolves u v)
    (leftResolvable : s.bindings.Resolvable (s.walk u))
    (rightResolvable : s.bindings.Resolvable (s.walk v))
    (left : (s.walkStar (s.walk u)).isExpr = false)
    (right : (s.walkStar (s.walk v)).isExpr = false) :
    InStep c n (unifyTurned false (depth + 1) s u v) (unifyTurned turned (depth + 1) s' u' v') := by
  have sameLeft := alike.walkStar_left leftResolvable
  have sameRight := alike.swap.walkStar_left rightResolvable
  -- At least one side was an expression before, and is an atom now that it is none.
  have atom : (s.walkStar (s.walk u)).isAtom = true ∨ (s.walkStar (s.walk v)).isAtom = true :=
    resolves.involved.imp (fun expression => Substitution.isAtom_walkStar_of_isExpr expression left)
      fun expression => Substitution.isAtom_walkStar_of_isExpr expression right
  rw [unifyTurned_values false resolves left right,
    unifyTurned_values turned (alike.resolves resolves)
      ((Term.isExpr_eq_of_map_eq sameLeft).trans left)
      ((Term.isExpr_eq_of_map_eq sameRight).trans right)]
  exact symmetric n turned ⟨alike.agree, sameLeft, sameRight⟩
    (not_meetsCycle_of_isAtom atom leftResolvable.walkStar rightResolvable.walkStar)

/-- Terms that have to be resolved are compared alike, whatever they are resolved to. -/
theorem SymmetricWithin.resolved (symmetric : SymmetricWithin depth)
    (alike : Alike c s u v s' u' v') (clear : ¬ MeetsCycle s u v) (resolves : s.Resolves u v) :
    InStep c n (unifyTurned false (depth + 1) s u v) (unifyTurned turned (depth + 1) s' u' v') := by
  obtain ⟨leftResolvable, rightResolvable⟩ := resolvable_of_not_meetsCycle clear resolves
  -- Four cases, for an expression or none on either side.
  cases left : (s.walkStar (s.walk u)).isExpr with
  | true =>
    obtain ⟨l, op, r, leftExpr⟩ := Term.exists_expr_of_isExpr left
    cases right : (s.walkStar (s.walk v)).isExpr with
    | true =>
      obtain ⟨k, op₂, q, rightExpr⟩ := Term.exists_expr_of_isExpr right
      exact symmetric.exprs alike clear resolves leftExpr rightExpr
    | false => exact symmetric.solves alike resolves leftResolvable rightResolvable leftExpr right
  | false =>
    cases right : (s.walkStar (s.walk v)).isExpr with
    | true =>
      obtain ⟨k, op₂, q, rightExpr⟩ := Term.exists_expr_of_isExpr right
      -- This is the case before it with the terms named the other way round.
      rw [← unifyTurned_not false, ← unifyTurned_not turned]
      exact symmetric.solves alike.swap resolves.symm rightResolvable leftResolvable rightExpr left
    | false => exact symmetric.values alike resolves leftResolvable rightResolvable left right

/-- Pairs are unified component by component, in both orders. -/
theorem SymmetricWithin.pairs {a d b e : Term Var} (symmetric : SymmetricWithin depth)
    (alike : Alike c s u v s' u' v') (clear : ¬ MeetsCycle s u v) (left : s.walk u = .pair a d)
    (right : s.walk v = .pair b e) :
    InStep c n (unifyTurned false (depth + 1) s u v) (unifyTurned turned (depth + 1) s' u' v') := by
  have sameLeft := alike.walk_left
  have sameRight := alike.swap.walk_left
  rw [left] at sameLeft
  rw [right] at sameRight
  obtain ⟨a', d', left', sameA, sameD⟩ := Term.eq_pair_of_map sameLeft.symm
  obtain ⟨b', e', right', sameB, sameE⟩ := Term.eq_pair_of_map sameRight.symm
  -- Both runs go into both components, and what they meet there would have been met here.
  rw [unifyTurned_pairs false left right, unifyTurned_pairs turned left' right']
  refine symmetric.sequence ⟨alike.agree, sameA.symm, sameB.symm⟩ sameD.symm sameE.symm
    (fun meets => clear (.first left right meets)) fun middle found meets => ?_
  exact clear (.rest left right found meets)

/-- One more step is symmetric if all that come after it are. -/
theorem SymmetricWithin.succ (symmetric : SymmetricWithin depth) : SymmetricWithin (depth + 1) := by
  intro n turned c s s' u v u' v' alike clear
  -- The cases are those of unification, and in each of them both runs take the same one.
  by_cases leftUnknown : ∃ x, s.walk u = .var x
  · obtain ⟨x, left⟩ := leftUnknown
    by_cases rightUnknown : ∃ y, s.walk v = .var y
    · obtain ⟨y, right⟩ := rightUnknown
      exact alike.lockstep_vars left right
    · exact alike.lockstep_knownRight left fun y right => rightUnknown ⟨y, right⟩
  have left : ∀ x, s.walk u ≠ .var x := fun x walked => leftUnknown ⟨x, walked⟩
  by_cases rightUnknown : ∃ y, s.walk v = .var y
  · obtain ⟨y, right⟩ := rightUnknown
    -- The case before it, with the terms named the other way round.
    rw [← unifyTurned_not false, ← unifyTurned_not turned]
    exact alike.swap.lockstep_knownRight right left
  have right : ∀ y, s.walk v ≠ .var y := fun y walked => rightUnknown ⟨y, walked⟩
  -- With no unknown on either side, pairs come first, then expressions, then leaves.
  by_cases pairs : ∃ a d b e, s.walk u = .pair a d ∧ s.walk v = .pair b e
  · obtain ⟨a, d, b, e, leftPair, rightPair⟩ := pairs
    exact symmetric.pairs alike clear leftPair rightPair
  by_cases expressions : (s.walk u).isExpr = true ∨ (s.walk v).isExpr = true
  · exact symmetric.resolved alike clear ⟨left, right, expressions⟩
  · refine alike.lockstep_leaves left right (fun a d b e leftPair rightPair => ?_) expressions
    exact pairs ⟨a, d, b, e, leftPair, rightPair⟩

/-- Unification is symmetric within every depth. -/
theorem symmetricWithin (depth : Nat) : SymmetricWithin depth := by
  induction depth with
  | zero =>
    intro n turned c s s' u v u' v' _ _
    -- Without any depth there is nothing found in either order.
    cases turned <;> exact .empty
  | succ depth ih => exact ih.succ

/-- The order of two terms makes no difference to how deep their unification may go. -/
theorem depthBound_comm (s : State) (u v : Term Var) : s.depthBound v u = s.depthBound u v := by
  -- The bound adds up the sizes of both terms.
  rw [depthBound, depthBound, Nat.add_right_comm s.bindings.weight v.size u.size]

/--
Two states give the same row for every list of terms.

There is no row for terms that lead into a cycle, and then there is none in either state.
-/
def SameRows (s s' : State) : Prop :=
  ∀ ts : List (Term Var),
    ((∀ t ∈ ts, s.bindings.Resolvable t) ↔ ∀ t ∈ ts, s'.bindings.Resolvable t) ∧
      ((∀ t ∈ ts, s.bindings.Resolvable t) → s.reifyAll ts = s'.reifyAll ts)

/-- States that match give the same rows. -/
theorem Matches.sameRows (matched : Matches c s s') : SameRows s s' := by
  obtain ⟨f, agree⟩ := matched
  intro ts
  refine ⟨⟨fun all t member => ?_, fun all t member => ?_⟩, fun all => ?_⟩
  · exact agree.resolvable rfl (all t member)
  · exact agree.symm.resolvable rfl (all t member)
  · -- Resolved terms differ at most in variables, which rows do not show.
    refine List.map_congr_left fun t member => ?_
    have resolved := agree.walkStar_map_eq (t := t) rfl (all t member)
    calc s.reify t = .ofTerm ((s.walkStar t).map (f ∘ c)) := (Answer.ofTerm_map _ _).symm
      _ = .ofTerm ((s'.walkStar t).map (f ∘ c)) := congrArg _ resolved
      _ = s'.reify t := Answer.ofTerm_map _ _

/--
Unification is symmetric.

In either order it takes the same steps, with items and suspensions at the same places, however far it
is read; and the states that stand at one place give the same rows.
-/
theorem unify_symmetric {s : State} {u v : Term Var} (reachable : s.Reachable)
    (clear : ¬ MeetsCycle s u v) (fuel : Nat) (wanted : Limit) :
    ((s.unify u v).explore Stream.noJobs fuel wanted).steps =
        ((s.unify v u).explore Stream.noJobs fuel wanted).steps ∧
      List.Forall₂ SameRows ((s.unify u v).explore Stream.noJobs fuel wanted).items
        ((s.unify v u).explore Stream.noJobs fuel wanted).items := by
  -- At first every variable is its own label.
  have alike : Alike id s u v s u v := ⟨.refl reachable.settled, rfl, rfl⟩
  have steps := symmetricWithin (s.depthBound u v) fuel true alike clear
  have turned : s.unify v u = unifyTurned true (s.depthBound u v) s u v := by
    rw [unify, depthBound_comm, unifyTurned]
  rw [turned]
  exact (steps.imp fun _ _ _ matched => matched.sameRows).explore wanted

/-- Two variables are bound to each other, and an expression over one of them then gives both a value. -/
theorem unify_symmetric_four :
    Reachable (State.empty.freshVars 2).2 ∧
    ¬ MeetsCycle (State.empty.freshVars 2).2
      (.pair (.var ⟨0⟩) (.expr (.var ⟨0⟩) .add (.int 1))) (.pair (.var ⟨1⟩) (.int 5)) ∧
    SameRows (((State.empty.freshVars 2).2.bind ⟨0⟩ (.var ⟨1⟩)).bind ⟨1⟩ (.int 4))
      (((State.empty.freshVars 2).2.bind ⟨1⟩ (.var ⟨0⟩)).bind ⟨0⟩ (.int 4)) := by
  have reachable : Reachable (State.empty.freshVars 2).2 := .freshVars .empty 2
  -- The binding leads to a variable with a higher number.
  have acyclic : ((State.empty.freshVars 2).2.bind ⟨0⟩ (.var ⟨1⟩)).bindings.Acyclic := by
    refine Substitution.acyclic_of_rank (fun x => 1 - x.id) fun x y depends => ?_
    obtain ⟨t, bound, occurs⟩ := depends
    rw [bind, Substitution.get?_extend] at bound
    split at bound
    · obtain rfl := Option.some.inj bound
      simp_all [Term.vars]
    · cases bound
  -- Every rule for meeting a cycle needs a term to be resolved, and each can be resolved here.
  have clear : ¬ MeetsCycle (State.empty.freshVars 2).2
      (.pair (.var ⟨0⟩) (.expr (.var ⟨0⟩) .add (.int 1))) (.pair (.var ⟨1⟩) (.int 5)) := by
    intro meets
    cases meets with
    | resolving resolves _ =>
      obtain expression | expression := resolves.involved
      · cases expression
      · cases expression
    | first left right meets =>
      -- Two free variables are bound without resolving anything.
      cases left
      cases right
      cases meets with
      | resolving resolves _ => exact resolves.left ⟨0⟩ rfl
      | first left _ _ | rest left _ _ _ | lhs left _ _ | rhs left _ _ _ => cases left
    | rest left right found _ =>
      cases left
      cases right
      rename_i depth meets
      cases depth with
      | zero => cases found
      | succ depth =>
        -- The one state in the middle has no cycle, so the expression can be resolved in it.
        have apart : (State.empty.freshVars 2).2.walk (.var ⟨1⟩) ≠ .var ⟨0⟩ := by decide
        rw [unifyWithin_bindLeft rfl rfl rfl apart] at found
        obtain rfl := List.mem_singleton.1 found
        exact not_meetsCycle_of_isAtom (.inr rfl) (acyclic.resolvable _) (acyclic.resolvable _) meets
    | lhs left _ _ | rhs left _ _ _ => cases left
  obtain ⟨_, rows⟩ := unify_symmetric reachable clear 0 .all
  exact ⟨reachable, clear, (List.forall₂_cons.1 rows).1⟩

end State

end Relational
