import Relational.Database
import Relational.Proofs.Stream.Reach
import Relational.Relation

/-! Derivations: which states a goal leads to, said without streams, turns or forcings. -/

namespace Relational

/-- The terms of goals whose variables are given by number mean themselves under every naming. -/
theorem Term.instantiate_map_numbered (env : Env) (t : Term Var) :
    (t.map Name.numbered).instantiate env.term = t := by
  -- A numbered variable is looked up nowhere, and all else is kept.
  unfold Term.map
  induction t with
  | pair a d first rest => simp only [Term.instantiate, first, rest]
  | expr l op r left right => simp only [Term.instantiate, left, right]
  | _ => rfl

namespace Program

/--
A goal leads from a state to another, by a finite derivation.

Nothing is said of the order in which states are found, or of how long a search for them takes.
-/
inductive Derives (p : Program) : Goal → Env → State → State → Prop where
  /-- An equation leads to every state in which its sides are unified. -/
  | eq {u v : Term Name} {env : Env} {s s' : State}
      (unified : Stream.Reached Stream.noJobs s'
        (s.unify (u.instantiate env.term) (v.instantiate env.term))) :
      Derives p (.eq u v) env s s'
  /-- A disequation changes nothing, and holds where its sides cannot be unified. -/
  | disunify {u v : Term Name} {env : Env} {s : State}
      (apart : ∀ s', ¬ Stream.Reached Stream.noJobs s'
        (s.unify (u.instantiate env.term) (v.instantiate env.term))) :
      Derives p (.disunify u v) env s s
  | succeed {env : Env} {s : State} : Derives p .succeed env s s
  | always {env : Env} {s : State} : Derives p .always env s s
  | left {g h : Goal} {env : Env} {s s' : State} (holds : Derives p g env s s') :
      Derives p (.disj2 g h) env s s'
  | right {g h : Goal} {env : Env} {s s' : State} (holds : Derives p h env s s') :
      Derives p (.disj2 g h) env s s'
  /-- The second goal goes on from a state that the first one leads to. -/
  | both {g h : Goal} {env : Env} {s middle s' : State} (first : Derives p g env s middle)
      (second : Derives p h env middle s') : Derives p (.conj2 g h) env s s'
  | snooze {g : Goal} {env : Env} {s s' : State} (holds : Derives p g env s s') :
      Derives p (.snooze g) env s s'
  /-- Fresh names stand for the next unused variables, in order. -/
  | fresh {names : List String} {g : Goal} {env : Env} {s s' : State}
      (holds : Derives p g (env.extend names (s.freshVars names.length).1)
        (s.freshVars names.length).2 s') :
      Derives p (.fresh names g) env s s'
  | trace {label : String} {g : Goal} {env : Env} {s s' : State} (holds : Derives p g env s s') :
      Derives p (.trace label g) env s s'
  /-- A relation leads where the body of its definition does, for the given arguments. -/
  | call {relation : RelationName} {args : List (Term Name)} {d : Definition} {env : Env}
      {s s' : State} (defined : p.definition? relation = some d)
      (holds : Derives p (.conj d.body)
        (Env.extend [] d.params (args.map (·.instantiate env.term))) s s') :
      Derives p (.call relation args) env s s'

variable {p : Program} {env : Env} {s s' : State}

/-- Two goals are joined by the states in between. -/
theorem derives_conj2_iff {g h : Goal} :
    p.Derives (.conj2 g h) env s s' ↔
      ∃ middle, p.Derives g env s middle ∧ p.Derives h env middle s' := by
  constructor
  · intro derived
    cases derived with
    | both first second => exact ⟨_, first, second⟩
  · intro joined
    obtain ⟨middle, first, second⟩ := joined
    exact .both first second

/-- An equation leads to the unified states. -/
theorem derives_eq_iff {u v : Term Name} :
    p.Derives (.eq u v) env s s' ↔
      Stream.Reached Stream.noJobs s'
        (s.unify (u.instantiate env.term) (v.instantiate env.term)) := by
  constructor
  · intro derived
    cases derived with
    | eq unified => exact unified
  · exact .eq

end Program

end Relational
