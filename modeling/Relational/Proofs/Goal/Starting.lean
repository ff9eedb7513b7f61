import Relational.Proofs.Goal.Finishing
import Relational.Proofs.Stream.Beginning

/-! Starting: the first states that a search finds, in their order, where it may go on for ever. -/

namespace Relational.Program

open Relational.Stream (Begins EndsWith Waits)

variable {p : Program} {env : Env} {s s' s₁ s₂ : State} {g h : Goal} {goals : List Goal}
  {u v u' v' : Term Name} {relation : RelationName} {names params : List String}
  {found others : List State} {n : Nat}

/-- The search for a goal finds some states first, in this order. -/
def Starts (p : Program) (g : Goal) (env : Env) (s : State) (found : List State) : Prop :=
  Begins p.unfold found (g.apply env s)

/-- One more goal is searched for in the one state that the others have led to. -/
theorem Finishes.conj_starts (earlier : p.Finishes (.conj goals) env s [s'] n)
    (starts : p.Starts g env s' found) : p.Starts (.conj (goals ++ [g])) env s found := by
  -- Goals are joined from the left, and the last one is looked at one forcing later.
  rw [Starts, Goal.conj, List.foldl_append]
  exact EndsWith.flatMap_begins earlier (.forced starts)

/-- The second of two alternatives follows the first one if that ends while it still waits. -/
theorem Finishes.disj_starts (first : p.Finishes g env s found n) (second : p.Starts h env s others)
    (waits : Waits p.unfold n (h.apply env s)) :
    p.Starts (.disj [g, h]) env s (found ++ others) := by
  -- Both goals are looked at later by one forcing, so the second one still waits long enough.
  rw [Starts, Goal.disj, List.foldl_cons, List.foldl_cons, List.foldl_nil, Goal.apply, Goal.apply,
    Goal.apply, Stream.empty_append]
  exact EndsWith.append_begins first.snooze (.forced waits) (.forced second)

/-- The search for a relation between some terms finds some states first, in this order. -/
def Offers (p : Program) (relation : RelationName) (args : List (Term Var)) (s : State)
    (found : List State) : Prop :=
  Begins p.unfold found (.immature (.source (.call relation args s)))

/-- Behind two equations about fresh variables, goals start as the relation does that they leave it to. -/
theorem starts_fresh_call {args : List (Term Name)} {inner : Env}
    (inside : inner = env.extend names (s.freshVars names.length).1)
    (met : (s.freshVars names.length).2.unify (u.instantiate inner.term) (v.instantiate inner.term) =
      .singleton s₁)
    (again : s₁.unify (u'.instantiate inner.term) (v'.instantiate inner.term) = .singleton s₂)
    (offers : p.Offers relation (args.map (·.instantiate inner.term)) s₂ found) :
    p.Starts (.freshAll names [.eq u v, .eq u' v', .call relation args]) env s found := by
  subst inside
  -- The equations end with one state, and the relation goes on from there.
  exact (finishes_conj_two met again).conj_starts offers

/-- A relation starts as the one goal of its body does. -/
theorem offers_body {args : List (Term Var)}
    (defined : p.definition? relation = some ⟨params, [g]⟩)
    (starts : p.Starts g (Env.extend [] params args) s found) :
    p.Offers relation args s found := by
  -- As for a body that ends: one goal is put off, and then the call is forced.
  have body := finishes_conj_nil.conj_starts starts
  rw [Starts, ← unfold_body defined] at body
  exact .forced body

/--
A relation of two alternatives starts with the states of the first, and goes on with the second.

The second one asks for fresh variables and several goals, and the first one is found to end before any
answer can have come from there.
-/
theorem offers_cases {args : List (Term Var)}
    (defined : p.definition? relation = some ⟨params, [.disj [g, .freshAll names goals]]⟩)
    (first : p.Finishes g (Env.extend [] params args) s found n) (early : n ≤ goals.length)
    (second : p.Starts (.freshAll names goals) (Env.extend [] params args) s others) :
    p.Offers relation args s (found ++ others) := by
  -- Every goal of the second alternative is a suspension that the first one is done before.
  have waits : Waits p.unfold n
      ((Goal.freshAll names goals).apply (Env.extend [] params args) s) := (waits_conj goals).mono early
  exact offers_body defined (first.disj_starts second waits)

/-- A run that is asked for some number of rows ends with the given ones, once it has fuel enough. -/
def RunsFirst (p : Program) (count : Nat) (names : List String) (g : Goal) (rows : List Row) :
    Prop :=
  ∃ least, ∀ fuel, least ≤ fuel → p.run? fuel (.take count) names g = some rows

/-- A run for the first rows of a relation has one for each state that its search finds first. -/
theorem Offers.runsFirst (names : List String) {args : List (Term Name)} {terms : List (Term Var)}
    (offers : p.Offers relation terms (State.empty.freshVars names.length).2 found)
    (stand : args.map (·.instantiate
      (Env.extend [] names (State.empty.freshVars names.length).1).term) = terms) :
    p.RunsFirst found.length names (.call relation args)
      (found.map (·.reifyAll (State.empty.freshVars names.length).1)) := by
  -- As many states are collected as rows are wanted, and the search stops there.
  rw [← stand] at offers
  obtain ⟨least, collected⟩ := Begins.collect offers
  refine ⟨least, fun fuel enough => ?_⟩
  simp only [run?, states?, Goal.apply, collected fuel enough, Option.map_some]

end Relational.Program
