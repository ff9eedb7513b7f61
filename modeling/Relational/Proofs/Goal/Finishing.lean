import Mathlib.Data.List.Forall2
import Mathlib.Data.List.Induction
import Relational.Proofs.Stream.Ending
import Relational.Proofs.Stream.Waiting
import Relational.Run

/-! Finishing: goals whose search comes to an end, and the states it ends with, in their order. -/

namespace Relational.Program

open Relational.Stream (EndsWith Waits)

variable {p : Program} {env : Env} {s s' s₁ s₂ : State} {g h : Goal} {goals : List Goal}
  {u v u' v' : Term Name} {relation : RelationName} {names params : List String}
  {found others : List State} {n m : Nat}

/-- The search for a goal ends with some states, in this order, after some number of forcings. -/
def Finishes (p : Program) (g : Goal) (env : Env) (s : State) (found : List State) (n : Nat) : Prop :=
  EndsWith p.unfold found n (g.apply env s)

/-- An equation that can be met in one way leads to one state. -/
theorem finishes_eq (met : s.unify (u.instantiate env.term) (v.instantiate env.term) = .singleton s') :
    p.Finishes (.eq u v) env s [s'] 0 := by
  -- A unification suspends nothing, so its one state is there at once.
  rw [Finishes, Goal.apply, met]
  exact .item .empty

/-- An equation that cannot be met leads nowhere. -/
theorem finishes_eq_nil (apart : s.unify (u.instantiate env.term) (v.instantiate env.term) = .empty) :
    p.Finishes (.eq u v) env s [] 0 := by
  rw [Finishes, Goal.apply, apart]
  exact .empty

/-- Looking at a goal later costs one forcing. -/
theorem Finishes.snooze (ends : p.Finishes g env s found n) :
    p.Finishes (.snooze g) env s found (n + 1) :=
  -- The suspension that was put in front is the one that is forced.
  .forced ends

/-- No goals leave a state as it is. -/
theorem finishes_conj_nil : p.Finishes (.conj []) env s [s] 0 :=
  -- The empty conjunction is the goal that succeeds.
  .item .empty

/-- One more goal is looked at in the one state that the others have led to. -/
theorem Finishes.conj_snoc (earlier : p.Finishes (.conj goals) env s [s'] n)
    (ends : p.Finishes g env s' found m) :
    p.Finishes (.conj (goals ++ [g])) env s found (n + (m + 1)) := by
  -- Goals are joined from the left, so the last one is looked at in what all others have led to.
  rw [Goal.conj, List.foldl_append]
  exact EndsWith.flatMap_one earlier ends.snooze

/-- Where some goals lead nowhere, one more goal does not help. -/
theorem Finishes.conj_snoc_nil (earlier : p.Finishes (.conj goals) env s [] n) :
    p.Finishes (.conj (goals ++ [g])) env s [] n := by
  rw [Goal.conj, List.foldl_append]
  -- The new goal is mapped over no states at all.
  exact EndsWith.flatMap_nil earlier

/-- Where some goals lead nowhere, more of them do not help. -/
theorem Finishes.conj_append_nil (earlier : p.Finishes (.conj goals) env s [] n) (more : List Goal) :
    p.Finishes (.conj (goals ++ more)) env s [] n := by
  -- Goals are joined from the left, so it is the last of the new ones that is taken off.
  induction more using List.reverseRecOn with
  | nil => rwa [List.append_nil]
  | append_singleton more g ih =>
    rw [← List.append_assoc]
    exact ih.conj_snoc_nil

/-- A conjunction keeps its answers behind one suspension for every goal. -/
theorem waits_conj (goals : List Goal) :
    Waits p.unfold goals.length ((Goal.conj goals).apply env s) := by
  -- What was joined before is arbitrary, with as many suspensions as it has.
  have general : ∀ (earlier : Goal) (n : Nat), Waits p.unfold n (earlier.apply env s) →
      Waits p.unfold (n + goals.length)
        ((goals.foldl (fun earlier g => .conj2 earlier (.snooze g)) earlier).apply env s) := by
    induction goals with
    | nil => exact fun _ _ waits => waits
    | cons g goals ih =>
      intro earlier n waits
      -- The new goal is looked at behind one more suspension, whatever state it starts from.
      have next : Waits p.unfold (n + 1) ((Goal.conj2 earlier (.snooze g)).apply env s) :=
        waits.flatMap fun s' => .forced .none
      have rest := ih _ _ next
      rwa [Nat.add_assoc, Nat.add_comm 1] at rest
  have all := general .succeed 0 .none
  rwa [Nat.zero_add] at all

/-- The first of two alternatives comes first if it ends while the other one still waits. -/
theorem Finishes.disj_pair (first : p.Finishes g env s found n) (second : p.Finishes h env s others m)
    (waits : Waits p.unfold n (h.apply env s)) :
    p.Finishes (.disj [g, h]) env s (found ++ others) (n + 1 + (m + 1)) := by
  -- Both goals are looked at later by one forcing, so the second one still waits long enough.
  rw [Finishes, Goal.disj, List.foldl_cons, List.foldl_cons, List.foldl_nil, Goal.apply, Goal.apply,
    Goal.apply, Stream.empty_append]
  exact EndsWith.append_waiting first.snooze (.forced waits) second.snooze

/-- The search for a relation between some terms ends with some states, in this order. -/
def Decides (p : Program) (relation : RelationName) (args : List (Term Var)) (s : State)
    (found : List State) : Prop :=
  ∃ n, EndsWith p.unfold found n (.immature (.source (.call relation args s)))

section Equations

/-! Most relations ask for one or two equations first, and for another relation behind them. -/

/-- Of an equation that is met, only the state it leads to is left. -/
theorem finishes_conj_one
    (met : s.unify (u.instantiate env.term) (v.instantiate env.term) = .singleton s₁) :
    p.Finishes (.conj [.eq u v]) env s [s₁] 1 :=
  -- A conjunction begins with no goals, and puts each goal off.
  finishes_conj_nil.conj_snoc (finishes_eq met)

/-- Two equations that are met one after the other lead to one state. -/
theorem finishes_conj_two
    (met : s.unify (u.instantiate env.term) (v.instantiate env.term) = .singleton s₁)
    (again : s₁.unify (u'.instantiate env.term) (v'.instantiate env.term) = .singleton s₂) :
    p.Finishes (.conj [.eq u v, .eq u' v']) env s [s₂] 2 :=
  -- One goal more, from the state that the first one has led to.
  (finishes_conj_one met).conj_snoc (finishes_eq again)

/-- Where the first of some goals is an equation that cannot be met, the others do not help. -/
theorem finishes_conj_of_apart
    (apart : s.unify (u.instantiate env.term) (v.instantiate env.term) = .empty) :
    p.Finishes (.conj (.eq u v :: goals)) env s [] 1 :=
  -- Nothing is left after the first equation, so the other goals are not looked at.
  (finishes_conj_nil.conj_snoc (finishes_eq_nil apart)).conj_append_nil goals

/-- Where the second of some goals is an equation that cannot be met, the others do not help. -/
theorem finishes_conj_of_apart_second
    (met : s.unify (u.instantiate env.term) (v.instantiate env.term) = .singleton s₁)
    (apart : s₁.unify (u'.instantiate env.term) (v'.instantiate env.term) = .empty) :
    p.Finishes (.conj (.eq u v :: .eq u' v' :: goals)) env s [] 2 :=
  -- The first equation is met, and nothing is left after the second one.
  ((finishes_conj_one met).conj_snoc (finishes_eq_nil apart)).conj_append_nil goals

/-- Goals about fresh variables end as they do once the variables are there. -/
theorem Finishes.fresh
    (ends : p.Finishes (.conj goals) (env.extend names (s.freshVars names.length).1)
      (s.freshVars names.length).2 found n) :
    p.Finishes (.freshAll names goals) env s found n :=
  -- Taking fresh variables is no step of the search.
  ends

/--
Behind two equations about fresh variables, a relation decides what the goals lead to.

The terms it is asked about are those that its arguments stand for once the variables are there.
-/
theorem exists_finishes_fresh_call {args : List (Term Name)} {inner : Env}
    (inside : inner = env.extend names (s.freshVars names.length).1)
    (met : (s.freshVars names.length).2.unify (u.instantiate inner.term) (v.instantiate inner.term) =
      .singleton s₁)
    (again : s₁.unify (u'.instantiate inner.term) (v'.instantiate inner.term) = .singleton s₂)
    (decides : p.Decides relation (args.map (·.instantiate inner.term)) s₂ found) :
    ∃ n, p.Finishes (.freshAll names [.eq u v, .eq u' v', .call relation args]) env s found n := by
  subst inside
  -- A call is suspended by itself, so it ends where the relation does.
  obtain ⟨_, ends⟩ := decides
  exact ⟨_, .fresh ((finishes_conj_two met again).conj_snoc ends)⟩

end Equations

/-- A relation with one goal for its body is searched by looking at that goal, one forcing later. -/
theorem unfold_body {args : List (Term Var)}
    (defined : p.definition? relation = some ⟨params, [g]⟩) :
    p.unfold (.call relation args s) =
      (Goal.conj ([] ++ [g])).apply (Env.extend [] params args) s := by
  -- A conjunction of one goal is that goal put off behind the empty one.
  rw [unfold, defined]
  rfl

/-- A relation ends as the one goal of its body does. -/
theorem decides_body {args : List (Term Var)}
    (defined : p.definition? relation = some ⟨params, [g]⟩)
    (ends : p.Finishes g (Env.extend [] params args) s found n) :
    p.Decides relation args s found := by
  -- The body is a conjunction of one goal, and calling the relation is one forcing more.
  have body := finishes_conj_nil.conj_snoc ends
  rw [Finishes, ← unfold_body defined] at body
  exact ⟨_, .forced body⟩

/--
A relation of two alternatives ends with the states of the first, and then with those of the second.

The second one asks for fresh variables and several goals, and the first one is found to end before any
answer can have come from there.
-/
theorem decides_cases {args : List (Term Var)}
    (defined : p.definition? relation = some ⟨params, [.disj [g, .freshAll names goals]]⟩)
    (first : p.Finishes g (Env.extend [] params args) s found n) (early : n ≤ goals.length)
    (second : ∃ m, p.Finishes (.freshAll names goals) (Env.extend [] params args) s others m) :
    p.Decides relation args s (found ++ others) := by
  obtain ⟨m, second⟩ := second
  -- Every goal of the second alternative is a suspension that the first one is done before.
  have waits : Waits p.unfold n
      ((Goal.freshAll names goals).apply (Env.extend [] params args) s) := (waits_conj goals).mono early
  exact decides_body defined (first.disj_pair second waits)

/-- States that say what some items are to say, in their order, have the rows of those items. -/
theorem rows_eq {ι : Type} {items : List ι} {row : ι → Row} {terms : List (Term Var)}
    (same : List.Forall₂ (fun later item => State.reifyAll later terms = row item) found items) :
    found.map (·.reifyAll terms) = items.map row := by
  -- State by state, the row is the one of the item.
  rw [← List.forall₂_eq_eq_eq, List.forall₂_map_left_iff, List.forall₂_map_right_iff]
  exact same

/-- A run that is asked for everything ends with the given rows, once it has fuel enough. -/
def RunsTo (p : Program) (names : List String) (g : Goal) (rows : List Row) : Prop :=
  ∃ least, ∀ fuel, least ≤ fuel → p.run? fuel .all names g = some rows

/-- A run for a goal has one row for each state its search ends with. -/
theorem Finishes.runsTo
    (ends : p.Finishes g (Env.extend [] names (State.empty.freshVars names.length).1)
      (State.empty.freshVars names.length).2 found n) :
    p.RunsTo names g (found.map (·.reifyAll (State.empty.freshVars names.length).1)) := by
  -- The states are collected in the order they come in, and each is read off for the tracked variables.
  refine ⟨n, fun fuel enough => ?_⟩
  simp only [run?, states?, EndsWith.collect ends enough, Option.map_some]

/-- A run for a relation has one row for each state its search ends with. -/
theorem Decides.runsTo (names : List String) {args : List (Term Name)} {terms : List (Term Var)}
    (decides : p.Decides relation terms (State.empty.freshVars names.length).2 found)
    (stand : args.map (·.instantiate
      (Env.extend [] names (State.empty.freshVars names.length).1).term) = terms) :
    p.RunsTo names (.call relation args)
      (found.map (·.reifyAll (State.empty.freshVars names.length).1)) := by
  -- The arguments of the call are instantiated by the tracked variables, and this is where the search starts.
  rw [← stand] at decides
  obtain ⟨_, ends⟩ := decides
  exact Finishes.runsTo ends

/-- A run that ends does not end with other rows as well. -/
theorem RunsTo.eq {rows rows' : List Row} (runs : p.RunsTo names g rows)
    (other : p.RunsTo names g rows') : rows = rows' := by
  obtain ⟨least, ended⟩ := runs
  obtain ⟨least', ended'⟩ := other
  -- There is fuel that is enough for both.
  have first := ended (max least least') (Nat.le_max_left _ _)
  have second := ended' (max least least') (Nat.le_max_right _ _)
  exact Option.some.inj (first.symm.trans second)

end Relational.Program
