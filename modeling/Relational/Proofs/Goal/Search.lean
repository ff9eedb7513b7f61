import Relational.Proofs.Goal.Derivation

/-! Search: the states it reaches are exactly those that can be derived, however endless it is. -/

namespace Relational.Program

open Relational.Stream (Reached ReachedWithin)

variable {p : Program} {env : Env} {s s' : State}

/-- The endless search reaches nothing. -/
theorem not_reachedWithin_never {n : Nat} :
    ¬ ReachedWithin p.unfold s' n (.immature (.source .never)) := by
  -- Each forcing gives the same suspension back.
  induction n with
  | zero => exact nofun
  | succ n ih =>
    intro reached
    cases reached with
    | forced later => exact ih later

/-- The goal that is answered for ever reaches the one state it started from. -/
theorem reachedWithin_always {n : Nat}
    (reached : ReachedWithin p.unfold s' n (.immature (.source (.always s)))) : s' = s := by
  -- The induction is on the forcings, each of which realizes the state once more.
  induction n with
  | zero => cases reached
  | succ n ih =>
    cases reached with
    | forced later =>
      -- Behind the suspension there is the state itself, and then the same suspension again.
      rcases Stream.reachedWithin_mature_iff.1 later with same | again
      · exact same
      · exact ih again

/-- A disequation reaches its own state, and only where the sides cannot be unified. -/
theorem reached_disunify_iff {u v : Term Var} :
    Reached Stream.noJobs s' (s.disunify u v) ↔
      s' = s ∧ ∀ other, ¬ Reached Stream.noJobs other (s.unify u v) := by
  -- To look for a first state is to look for any, because a unification ends.
  have absent : (s.unify u v).first? = none ↔
      ∀ other, ¬ Reached Stream.noJobs other (s.unify u v) := by
    rw [Stream.first?_eq_none_iff, List.eq_nil_iff_forall_not_mem]
    simp only [Stream.reached_noJobs_iff]
  rw [← absent, Stream.reached_noJobs_iff, State.disunify]
  cases (s.unify u v).first? with
  | none => simp [Stream.singleton, Stream.members]
  | some other => simp [Stream.members]

/--
Whatever a search reaches can be derived.

The count of forcings goes down at every relation call, and otherwise the goal gets smaller.
-/
theorem derives_of_reachedWithin {n : Nat} {g : Goal}
    (reached : ReachedWithin p.unfold s' n (g.apply env s)) : p.Derives g env s s' := by
  induction n using Nat.strongRecOn generalizing g env s s' with
  | ind n earlier =>
    induction g generalizing env s s' with
    -- By induction on the goal; equations take no relation calls, so their forcings are their own.
    | eq u v => exact .eq ⟨n, Stream.reachedWithin_lift_iff.1 reached⟩
    | disunify u v =>
      obtain ⟨rfl, apart⟩ := reached_disunify_iff.1 ⟨n, Stream.reachedWithin_lift_iff.1 reached⟩
      exact .disunify apart
    | succeed =>
      cases reached with
      | head => exact .succeed
      | tail later => cases later
    | fail => cases reached
    | never => exact absurd reached not_reachedWithin_never
    | always =>
      obtain rfl := reachedWithin_always reached
      exact .always
    -- Joined streams hold nothing but the items of the two.
    | disj2 g h first second =>
      rcases reached.of_append with left | right
      · exact .left (first left)
      · exact .right (second right)
    -- An answer to both goals is an answer to the second in one of the first.
    | conj2 g h first second =>
      obtain ⟨middle, there, further⟩ := reached.of_flatMap
      exact .both (first there) (second further)
    -- Putting a goal off costs a forcing, and the goal itself gets smaller.
    | snooze g ih =>
      obtain ⟨m, rfl, later⟩ := Stream.reachedWithin_immature_iff.1 reached
      exact .snooze (ih (later.mono (Nat.le_succ m)))
    | fresh names g ih => exact .fresh (ih reached)
    | trace label g ih => exact .trace (ih (Stream.reachedWithin_map_id_iff.1 reached))
    | call relation args =>
      -- The body may be larger than the call, but it is reached with one forcing less.
      obtain ⟨m, rfl, later⟩ := Stream.reachedWithin_immature_iff.1 reached
      rw [Suspension.resume, unfold] at later
      cases defined : p.definition? relation with
      | none => simp [defined] at later
      | some d =>
        simp only [defined] at later
        exact .call defined (earlier m (Nat.lt_succ_self m) later)

/-- Whatever can be derived is reached by the search, because no branch waits for ever. -/
theorem Derives.reached {g : Goal} (derived : p.Derives g env s s') :
    Reached p.unfold s' (g.apply env s) := by
  -- Each rule adds finitely many forcings to those of its premises.
  induction derived with
  | eq unified =>
    obtain ⟨n, unified⟩ := unified
    exact ⟨n, Stream.reachedWithin_lift_iff.2 unified⟩
  | disunify apart =>
    obtain ⟨n, reached⟩ := reached_disunify_iff.2 ⟨rfl, apart⟩
    exact ⟨n, Stream.reachedWithin_lift_iff.2 reached⟩
  | succeed => exact ⟨0, .head⟩
  | always => exact ⟨1, .forced .head⟩
  -- Here fairness matters: the other alternative may be endless.
  | left _ ih => exact Stream.reached_append_iff.2 (.inl ih)
  | right _ ih => exact Stream.reached_append_iff.2 (.inr ih)
  | both _ _ first second => exact Stream.reached_flatMap_iff.2 ⟨_, first, second⟩
  -- The search comes back to a goal that was put off after one forcing.
  | snooze _ ih =>
    obtain ⟨n, reached⟩ := ih
    exact ⟨n + 1, .forced reached⟩
  | fresh _ ih => exact ih
  | trace _ ih =>
    obtain ⟨n, reached⟩ := ih
    exact ⟨n, Stream.reachedWithin_map_id_iff.2 reached⟩
  -- One forcing replaces the call by the body of its definition.
  | call defined _ ih =>
    obtain ⟨n, reached⟩ := ih
    refine ⟨n + 1, .forced ?_⟩
    rw [Suspension.resume, unfold, defined]
    exact reached

end Relational.Program
