import Relational.Proofs.Goal.Search
import Relational.Proofs.State.Unification

/-! Growth: along every branch of a search bindings are kept, and variables are only ever added. -/

namespace Relational

/-- A state keeps every binding of an earlier one, and has used at least as many variables. -/
structure State.Grows (s s' : State) : Prop where
  keeps : s'.bindings.Extends s.bindings
  counts : s.nextVar ≤ s'.nextVar

namespace State

variable {s middle s' : State} {u v : Term Var}

/-- A state is grown from itself. -/
theorem Grows.refl (s : State) : s.Grows s :=
  ⟨.refl _, Nat.le_refl _⟩

/-- What grows in two steps has grown. -/
theorem Grows.trans (first : s.Grows middle) (second : middle.Grows s') : s.Grows s' where
  keeps := second.keeps.trans first.keeps
  -- Growing is keeping bindings and not lowering the counter, and both of these can be chained.
  counts := Nat.le_trans first.counts second.counts

/-- Unification uses no fresh variables. -/
theorem Unifies.nextVar_eq (unified : Unifies s u v s') : s'.nextVar = s.nextVar := by
  -- Binding a variable leaves the counter alone, and every other rule passes states on.
  induction unified with
  | same _ => rfl
  | bindLeft _ _ _ => rfl
  | bindRight _ _ _ => rfl
  | pairs _ _ _ _ first rest => exact rest.trans first
  | exprs _ _ _ _ first rest => exact rest.trans first
  | solveLeft _ _ _ rest => exact rest
  | solveRight _ _ _ rest => exact rest
  | values _ rest => exact rest

/-- Unification only adds bindings. -/
theorem Unifies.grows (unified : Unifies s u v s') : s.Grows s' where
  -- Unification binds free variables only, and allocates none.
  keeps := unified.extends
  counts := Nat.le_of_eq unified.nextVar_eq.symm

/-- Taking fresh variables changes no binding. -/
theorem grows_freshVars (s : State) (count : Nat) : s.Grows (s.freshVars count).2 where
  keeps := .refl _
  counts := Nat.le_add_right _ _

end State

namespace Program

variable {p : Program} {env : Env} {s s' : State} {g : Goal}

/-- Whatever a goal leads to has grown from where it started. -/
theorem Derives.grows (derived : p.Derives g env s s') : s.Grows s' := by
  -- Only equations and fresh variables change a state; all other rules chain such steps.
  induction derived with
  | eq unified => exact (State.unifies_of_reached unified).grows
  | disunify _ => exact .refl _
  | succeed => exact .refl _
  | always => exact .refl _
  | left _ ih => exact ih
  | right _ ih => exact ih
  | both _ _ first second => exact first.trans second
  | snooze _ ih => exact ih
  | @fresh names _ _ s _ _ ih => exact (s.grows_freshVars names.length).trans ih
  | trace _ ih => exact ih
  | call _ _ ih => exact ih

/-- Whatever a search reaches has grown from where it started. -/
theorem grows_of_reached (reached : Stream.Reached p.unfold s' (g.apply env s)) : s.Grows s' := by
  obtain ⟨n, reached⟩ := reached
  -- What is reached is derived, and every rule grows the state.
  exact (derives_of_reachedWithin reached).grows

/--
States only grow along a branch of a search.

Every variable that is bound before a goal is bound to the identical term in each state it reaches,
and the counter of variables has not fallen.
-/
theorem reached_keeps_bindings {p : Program} {g : Goal} {env : Env} {s s' : State}
    (reached : Stream.Reached p.unfold s' (g.apply env s)) :
    (∀ x t, s.bindings.get? x = some t → s'.bindings.get? x = some t) ∧
      s.nextVar ≤ s'.nextVar := by
  -- The two parts of growing are what is stated here.
  have grown := grows_of_reached reached
  exact ⟨grown.keeps, grown.counts⟩

/-- A list that was bound at first is still there when one of its items has been found. -/
theorem reached_keeps_bindings_seven :
    Stream.Reached Program.standard.unfold
      (((((State.mk .empty 4).bind ⟨0⟩ (.pair (.int 7) .unit)).bind ⟨2⟩ (.int 7)).bind ⟨3⟩
        .unit).bind ⟨1⟩ (.int 7))
      ((Goal.membero (.var (.numbered ⟨1⟩)) (.var (.numbered ⟨0⟩))).apply []
        ((State.mk .empty 2).bind ⟨0⟩ (.pair (.int 7) .unit))) ∧
    (∀ x t, ((State.mk .empty 2).bind ⟨0⟩ (.pair (.int 7) .unit)).bindings.get? x = some t →
      (((((State.mk .empty 4).bind ⟨0⟩ (.pair (.int 7) .unit)).bind ⟨2⟩ (.int 7)).bind ⟨3⟩
        .unit).bind ⟨1⟩ (.int 7)).bindings.get? x = some t) := by
  have reached : Stream.Reached Program.standard.unfold
      (((((State.mk .empty 4).bind ⟨0⟩ (.pair (.int 7) .unit)).bind ⟨2⟩ (.int 7)).bind ⟨3⟩
        .unit).bind ⟨1⟩ (.int 7))
      ((Goal.membero (.var (.numbered ⟨1⟩)) (.var (.numbered ⟨0⟩))).apply []
        ((State.mk .empty 2).bind ⟨0⟩ (.pair (.int 7) .unit))) :=
    -- One forcing for each of the delays on the way to the first item.
    ⟨6, .forced (.forced (.forced (.forced (.forced (.forced .head)))))⟩
  exact ⟨reached, (reached_keeps_bindings reached).1⟩

end Program

end Relational
