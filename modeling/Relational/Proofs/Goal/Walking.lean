import Relational.Proofs.Goal.Search
import Relational.Proofs.State.Symmetry

/-! Walking in the states of a search: chains of variables end, whatever terms the search has met. -/

namespace Relational

namespace Program

variable {p : Program} {g : Goal} {env : Env} {s s' : State}

/-- No goal binds a variable to a chain of variables that comes back to it. -/
theorem Derives.settled (derived : p.Derives g env s s') (settled : s.bindings.Settled) :
    s'.bindings.Settled := by
  -- Only equations make bindings, and fresh variables come without any.
  induction derived with
  | eq unified => exact (State.unifies_of_reached unified).settled settled
  | disunify _ => exact settled
  | succeed => exact settled
  | always => exact settled
  | left _ ih => exact ih settled
  | right _ ih => exact ih settled
  | both _ _ first second => exact second (first settled)
  | snooze _ ih => exact ih settled
  | fresh _ ih => exact ih settled
  | trace _ ih => exact ih settled
  | call _ _ ih => exact ih settled

end Program

namespace State

/--
A state that fresh variables, unification and goals can lead to, starting from nothing.

The terms may be any: with variables that were never allocated, with expressions, and such that
variables come to be bound to terms they occur in.
-/
inductive Visited : State → Prop where
  | empty : Visited .empty
  | freshVar {s : State} (visited : Visited s) : Visited s.freshVar.2
  | freshVars {s : State} (visited : Visited s) (count : Nat) : Visited (s.freshVars count).2
  | unify {s s' : State} {u v : Term Var} (visited : Visited s)
      (reached : Stream.Reached Stream.noJobs s' (s.unify u v)) : Visited s'
  | goal {p : Program} {g : Goal} {env : Env} {s s' : State} (visited : Visited s)
      (reached : Stream.Reached p.unfold s' (g.apply env s)) : Visited s'

/-- In a visited state no variable leads back to itself through variables alone. -/
theorem Visited.settled {s : State} (visited : s.Visited) : s.bindings.Settled := by
  induction visited with
  -- Only unification makes bindings, whether it is called directly or by a goal.
  | empty => exact Substitution.settled_empty
  | freshVar _ ih => exact ih
  | freshVars _ _ ih => exact ih
  | unify _ reached ih => exact (unifies_of_reached reached).settled ih
  | goal _ reached ih =>
    obtain ⟨n, reached⟩ := reached
    exact (Program.derives_of_reachedWithin reached).settled ih

/--
Every walk in a visited state comes to an end.

Following bindings from variable to variable never leads back, no variable is bound to itself, and a
walk from any term stops at what `walk` gives: no variable, or a variable that is not bound.
-/
theorem walk_ends_of_visited {s : State} (visited : s.Visited) :
    (∀ x, ¬ Relation.TransGen s.bindings.Follows x x) ∧
      (∀ x, s.bindings.get? x ≠ some (.var x)) ∧
      ∀ t, (∀ r, s.bindings.WalksTo t r ↔ r = s.walk t) ∧
        ∀ x, s.walk t = .var x → s.bindings.get? x = none := by
  -- A variable bound to itself would be the shortest cycle of all.
  have settled := visited.settled
  refine ⟨settled, fun x itself => settled x (.single itself), fun t => ?_⟩
  exact ⟨fun r => settled.walksTo_iff, fun x => settled.get?_eq_none⟩

/-- Two variables that nobody allocated stand for a pair they both occur in, and walking still ends. -/
theorem walk_ends_of_visited_cycle :
    ((State.empty.bind ⟨3⟩ (.var ⟨5⟩)).bind ⟨5⟩
        (.pair (.var ⟨3⟩) (.expr (.var ⟨5⟩) .add (.int 1)))).Visited ∧
      ((State.empty.bind ⟨3⟩ (.var ⟨5⟩)).bind ⟨5⟩
        (.pair (.var ⟨3⟩) (.expr (.var ⟨5⟩) .add (.int 1)))).bindings.WalksTo (.var ⟨3⟩)
          (.pair (.var ⟨3⟩) (.expr (.var ⟨5⟩) .add (.int 1))) := by
  -- The first state is found by unification alone, the second one by a goal.
  have first : (State.empty.bind ⟨3⟩ (.var ⟨5⟩)).Visited :=
    .unify .empty (u := .var ⟨3⟩) (v := .var ⟨5⟩) (Stream.reached_noJobs_iff.2 (by decide))
  have second : Stream.Reached Program.standard.unfold
      ((State.empty.bind ⟨3⟩ (.var ⟨5⟩)).bind ⟨5⟩
        (.pair (.var ⟨3⟩) (.expr (.var ⟨5⟩) .add (.int 1))))
      ((Goal.eq (.var (.numbered ⟨3⟩)) (.pair (.var (.numbered ⟨3⟩))
        (.expr (.var (.numbered ⟨5⟩)) .add (.int 1)))).apply []
          (State.empty.bind ⟨3⟩ (.var ⟨5⟩))) :=
    Program.Derives.reached (.eq (Stream.reached_noJobs_iff.2 (by decide)))
  have visited := first.goal second
  exact ⟨visited, (((walk_ends_of_visited visited).2.2 _).1 _).2 (by decide)⟩

end State

end Relational
