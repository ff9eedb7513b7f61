import Relational.Proofs.Goal.Search
import Relational.Proofs.State.Stability

/-! Stability in a search: an equation that holds already changes nothing, and its denial fails. -/

namespace Relational

namespace State

open Relational.Stream (Reached noJobs)

variable {s s' : State} {u v : Term Var}

/-- Once two terms have been unified, unifying them again changes nothing. -/
theorem unify_again (reached : Reached noJobs s' (s.unify u v)) (acyclic : s'.bindings.Acyclic) :
    s'.unify u v = .singleton s' := by
  -- Unified terms stand for the same in the state found.
  have same := (unifies_of_reached reached).walkStar_eq acyclic (.refl _)
  exact unify_of_walkStar_eq acyclic same (Nat.le_refl _)

/-- No state without a cycle satisfies both an equation and its denial. -/
theorem not_acyclic_of_denied {p : Program} {env : Env} {g h : Term Name}
    (reached : Reached p.unfold s' ((Goal.conj2 (.eq g h) (.disunify g h)).apply env s)) :
    ¬ s'.bindings.Acyclic := by
  intro acyclic
  obtain ⟨n, reached⟩ := reached
  obtain ⟨middle, unified, denied⟩ :=
    Program.derives_conj2_iff.1 (Program.derives_of_reachedWithin reached)
  cases denied with
  | disunify apart =>
    -- The equation led to the state itself, in which its sides can be unified once more.
    have again := unify_again (Program.derives_eq_iff.1 unified) acyclic
    refine apart s' ⟨0, ?_⟩
    rw [again]
    exact .head

/--
Unification is a no-op exactly on terms that already agree.

Terms that stand for the same are unified in the state itself, with nothing suspended, and a state
comes out of a unification only if they did. So unifying two terms again gives the state found, and no
state without a cycle satisfies an equation together with its denial.
-/
theorem unify_stable {s : State} (acyclic : s.bindings.Acyclic) (u v : Term Var) :
    (s.walkStar u = s.walkStar v → s.unify u v = .singleton s ∧
      ∀ depth, s.depthBound u v ≤ depth → unifyWithin depth s u v = .singleton s) ∧
    (Reached noJobs s (s.unify u v) → s.walkStar u = s.walkStar v) ∧
    (∀ s', Reached noJobs s' (s.unify u v) → s'.bindings.Acyclic →
      s'.unify u v = .singleton s') ∧
    ∀ (p : Program) (env : Env) (g h : Term Name) (start s' : State),
      Reached p.unfold s' ((Goal.conj2 (.eq g h) (.disunify g h)).apply env start) →
        ¬ s'.bindings.Acyclic := by
  refine ⟨fun same => ⟨?_, fun depth => ?_⟩, fun reached => ?_, fun s' => ?_, fun _ _ _ _ _ _ => ?_⟩
  · -- Enough depth is enough at the bound, and above it.
    exact unify_of_walkStar_eq acyclic same (Nat.le_refl _)
  · exact unify_of_walkStar_eq acyclic same
  · -- The found state is the state itself, so it keeps its own bindings.
    exact (unifies_of_reached reached).walkStar_eq acyclic (.refl _)
  · exact unify_again
  · exact not_acyclic_of_denied

/-- A sum meets its value, a variable the one it is bound to, and a stuck quotient itself. -/
theorem unify_stable_five :
    (((State.mk .empty 4).bind ⟨0⟩ (.expr (.int 2) .add (.int 3))).bind ⟨1⟩
      (.var ⟨2⟩)).bindings.Acyclic ∧
    (((State.mk .empty 4).bind ⟨0⟩ (.expr (.int 2) .add (.int 3))).bind ⟨1⟩ (.var ⟨2⟩)).unify
        (.list [.var ⟨0⟩, .var ⟨1⟩, .expr (.var ⟨0⟩) .div (.int 0)])
        (.list [.int 5, .var ⟨2⟩, .expr (.int 5) .div (.int 0)]) =
      .singleton
        (((State.mk .empty 4).bind ⟨0⟩ (.expr (.int 2) .add (.int 3))).bind ⟨1⟩ (.var ⟨2⟩)) := by
  have acyclic : (((State.mk .empty 4).bind ⟨0⟩ (.expr (.int 2) .add (.int 3))).bind ⟨1⟩
      (.var ⟨2⟩)).bindings.Acyclic := by
    refine Substitution.acyclic_of_rank (fun x => 2 - x.id) fun x y depends => ?_
    obtain ⟨t, bound, occurs⟩ := depends
    -- The one binding to a variable leads to a newer one, and the sum has no variables.
    simp only [bind, Substitution.get?_extend] at bound
    split at bound
    · cases bound
      simp_all [Term.vars]
    · split at bound
      · cases bound
        simp [Term.vars] at occurs
      · cases bound
  exact ⟨acyclic, ((unify_stable acyclic
    (.list [.var ⟨0⟩, .var ⟨1⟩, .expr (.var ⟨0⟩) .div (.int 0)])
    (.list [.int 5, .var ⟨2⟩, .expr (.int 5) .div (.int 0)])).1 (by decide)).1⟩

end State

end Relational
