import Relational.Database
import Relational.Proofs.Goal.Growth
import Relational.Proofs.Goal.Naming
import Relational.Proofs.State.Renaming

/-! Renamed goals: a search takes the same steps whatever its variables are called. -/

namespace Relational

/-- Numbered variables are renamed, and bound names stay as they are. -/
def Name.rename (π : Var → Var) : Name → Name
  | .numbered x => .numbered (π x)
  | .bound name => .bound name

/-- The terms that names stand for are renamed. -/
def Env.rename (π : Var → Var) (env : Env) : Env :=
  env.map (Prod.map id (Term.map π))

namespace Goal

/-- A goal with the numbered variables of all its terms renamed. -/
def rename (π : Var → Var) : Goal → Goal
  | .eq u v => .eq (u.map (Name.rename π)) (v.map (Name.rename π))
  | .disunify u v => .disunify (u.map (Name.rename π)) (v.map (Name.rename π))
  | .succeed => .succeed
  | .fail => .fail
  | .never => .never
  | .always => .always
  | .disj2 g h => .disj2 (g.rename π) (h.rename π)
  | .conj2 g h => .conj2 (g.rename π) (h.rename π)
  | .snooze g => .snooze (g.rename π)
  | .fresh names g => .fresh names (g.rename π)
  | .trace label g => .trace label (g.rename π)
  | .call relation args => .call relation (args.map (·.map (Name.rename π)))

/-- Goals joined one after the other are renamed one by one. -/
theorem rename_foldl {π : Var → Var} (join : Goal → Goal → Goal)
    (joined : ∀ g h, (join g h).rename π = join (g.rename π) (h.rename π)) (goals : List Goal)
    (start : Goal) :
    (goals.foldl (fun earlier g => join earlier (.snooze g)) start).rename π =
      (goals.map (rename π)).foldl (fun earlier g => join earlier (.snooze g))
        (start.rename π) := by
  -- Each further goal becomes part of the start for those behind it.
  induction goals generalizing start with
  | nil => rfl
  | cons g goals ih =>
    rw [List.foldl_cons, ih, joined]
    rfl

/-- A conjunction is renamed goal by goal. -/
theorem rename_conj (π : Var → Var) (goals : List Goal) :
    (conj goals).rename π = conj (goals.map (rename π)) :=
  -- Both are folds of goals joined in one way, and renaming goes into each join.
  rename_foldl .conj2 (fun _ _ => rfl) goals .succeed

/-- A disjunction is renamed goal by goal. -/
theorem rename_disj (π : Var → Var) (goals : List Goal) :
    (disj goals).rename π = disj (goals.map (rename π)) :=
  rename_foldl .disj2 (fun _ _ => rfl) goals .fail

end Goal

/-- A relation with the numbered variables of its body renamed. -/
def Definition.rename (π : Var → Var) (d : Definition) : Definition :=
  ⟨d.params, d.body.map (Goal.rename π)⟩

/-- A program with the numbered variables of all its relations renamed. -/
def Program.rename (π : Var → Var) (p : Program) : Program :=
  ⟨p.definitions.map (Prod.map id (Definition.rename π))⟩

/-- A table with the variables of all its facts renamed. -/
def Table.rename (π : Var → Var) (table : Table) : Table :=
  ⟨table.facts.map (List.map (Term.map π))⟩

/-- A database with the variables of all its facts renamed. -/
def Database.rename (π : Var → Var) (db : Database) : Database :=
  ⟨db.tables.map (Prod.map id (Table.rename π))⟩

namespace Env

/-- A renamed name stands for the renamed term. -/
theorem term_rename (π : Var → Var) (env : Env) (name : Name) :
    (env.rename π).term (name.rename π) = (env.term name).map π := by
  cases name with
  | numbered x => rfl
  | bound name =>
    -- A bound name keeps its name, and its term is looked up in the same place.
    rw [Name.rename, term, term, rename, lookup_map]
    cases env.lookup name <;> rfl

/-- Binders can be entered before or after renaming. -/
theorem rename_extend (π : Var → Var) (env : Env) (names : List String) (terms : List (Term Var)) :
    (env.extend names terms).rename π = (env.rename π).extend names (terms.map (Term.map π)) := by
  -- The names stay as they are, and each of them is given the renamed term.
  rw [rename, extend, extend, List.map_append, List.map_reverse, List.zip_map_right]
  rfl

end Env

/-- Instances of renamed terms are renamed instances. -/
theorem Term.instantiate_rename (π : Var → Var) (env : Env) (t : Term Name) :
    (t.map (Name.rename π)).instantiate (env.rename π).term = (t.instantiate env.term).map π := by
  induction t with
  -- By induction on the term; renaming only meets the names and the terms they stand for.
  | var name => exact env.term_rename π name
  | pair a d first rest => simp only [map_pair, instantiate, first, rest]
  | expr l op r left right => simp only [map_expr, instantiate, left, right]
  | _ => rfl

/-- Instances of renamed arguments are renamed instances. -/
theorem Term.instances_rename (π : Var → Var) (env : Env) (args : List (Term Name)) :
    (args.map (·.map (Name.rename π))).map (·.instantiate (env.rename π).term) =
      (args.map (·.instantiate env.term)).map (Term.map π) := by
  rw [List.map_map, List.map_map]
  -- One argument after another.
  exact List.map_congr_left fun t _ => instantiate_rename π env t

/-- The relations on lists mention no variable by its number. -/
theorem ListRelation.rename_definition (π : Var → Var) (relation : ListRelation) :
    relation.definition.rename π = relation.definition := by
  -- Their bodies are made of bound names only.
  cases relation <;> rfl

/-- A renamed program defines the same relations, by the renamed bodies. -/
theorem Program.definition?_rename (π : Var → Var) (p : Program) (relation : RelationName) :
    (p.rename π).definition? relation = (p.definition? relation).map (Definition.rename π) := by
  cases relation with
  | list relation => exact congrArg some (relation.rename_definition π).symm
  -- A relation of the program is looked up by its name, which renaming does not touch.
  | named name => exact lookup_map (Definition.rename π) p.definitions name

/-- Querying renamed facts is what querying the facts is renamed to. -/
theorem Database.rename_query (π : Var → Var) (db : Database) (name : String)
    (args : List (Term Name)) :
    (db.query name args).rename π =
      (db.rename π).query name (args.map (·.map (Name.rename π))) := by
  -- A fact becomes one equation for every column, and each column is renamed by itself.
  have column : ∀ (args : List (Term Name)) (fact : List (Term Var)),
      (Table.factGoal args fact).rename π =
        Table.factGoal (args.map (·.map (Name.rename π))) (fact.map (Term.map π)) := by
    intro args fact
    rw [Table.factGoal, Goal.rename_conj, Table.factGoal, List.map_zipWith, List.zipWith_map]
    simp only [Goal.rename, Term.map_map]
    rfl
  unfold query table?
  rw [rename, lookup_map]
  cases db.tables.lookup name with
  | none => rfl
  | some table =>
    simp only [Option.map_some, Table.goal, Goal.rename_disj, Table.rename, List.map_map,
      List.filter_map, Function.comp_def, List.length_map]
    -- As many facts have the right number of columns, since renaming does not change their length.
    refine congrArg Goal.disj (List.map_congr_left fun fact _ => ?_)
    exact column args fact

namespace State

variable {π : Var ↪ Var} {s s' : State}

/-- From the next unused variable on, new names come in the same order without a gap. -/
def Shifts (π : Var → Var) (s : State) : Prop :=
  ∀ i, π ⟨s.nextVar + i⟩ = ⟨(s.rename π).nextVar + i⟩

/-- Variables that are still unused later were unused before. -/
theorem Shifts.mono {π : Var → Var} (shifts : s.Shifts π) (counts : s.nextVar ≤ s'.nextVar) :
    s'.Shifts π := by
  -- The later counter is some number of variables further on, and the rest of the shift is left.
  obtain ⟨used, count⟩ := Nat.exists_eq_add_of_le counts
  have next : (s'.rename π).nextVar = (s.rename π).nextVar + used := by
    show (π ⟨s'.nextVar⟩).id = _
    rw [count, shifts used]
  intro i
  rw [next, count, Nat.add_assoc, shifts (used + i), Nat.add_assoc]

/-- Fresh variables of a renamed state are the renamed fresh variables. -/
theorem Shifts.freshVars {π : Var → Var} (shifts : s.Shifts π) (count : Nat) :
    (s.rename π).freshVars count =
      ((s.freshVars count).1.map (Term.map π), (s.freshVars count).2.rename π) := by
  -- The new counter is where the shift has moved the old one.
  have next : (π ⟨s.nextVar + count⟩).id = (s.rename π).nextVar + count := by rw [shifts count]
  simp only [State.freshVars, List.map_map, Prod.mk.injEq]
  constructor
  · refine List.map_congr_left fun i _ => ?_
    show Term.var _ = Term.var (π _)
    rw [shifts i]
  · show _ = State.mk (s.bindings.rename π) (π ⟨s.nextVar + count⟩).id
    rw [next]
    rfl

end State

namespace Program

variable {π : Var ↪ Var}

/-- A search goes on in lockstep with that of the renamed program, which finds the renamed states. -/
theorem lockstep_apply (p : Program) (n : Nat) (g : Goal) (env : Env) (s : State)
    (shifts : s.Shifts π) :
    Stream.Lockstep p.unfold (p.rename π).unfold (fun s s' => s.rename π = s') n (g.apply env s)
      ((g.rename π).apply (env.rename π) (s.rename π)) := by
  -- A forcing may unfold a goal into a larger one, so the forcings are counted down first.
  induction n using Nat.strongRecOn generalizing g env s with
  | ind n fewer =>
    induction g generalizing env s with
    | eq u v =>
      simp only [Goal.rename, Goal.apply, Term.instantiate_rename]
      -- Unification is mirrored, whatever names the terms are written with.
      exact (State.mirrors_unify π s _ _).lift p.unfold (p.rename π).unfold
    | disunify u v =>
      simp only [Goal.rename, Goal.apply, Term.instantiate_rename]
      exact (State.mirrors_disunify π s _ _).lift p.unfold (p.rename π).unfold
    | succeed => exact .singleton rfl
    | fail => exact .empty
    | never =>
      cases n with
      | zero => exact .unforced
      | succ n => exact .forced (fewer n (Nat.lt_succ_self n) .never env s shifts)
    | always =>
      cases n with
      | zero => exact .unforced
      | succ n => exact .forced (.mature rfl (fewer n (Nat.lt_succ_self n) .always env s shifts))
    | disj2 g h first second => exact (first env s shifts).append (second env s shifts)
    | conj2 g h first second =>
      -- A state that the first goal finds has the unused variables of this one, or some of them.
      have found := (first env s shifts).imp (S := fun m m' => m.rename π = m' ∧ m.Shifts π)
        -- Only the counter of the found state matters here, not its bindings.
        fun m m' reached renamed => ⟨renamed, shifts.mono (grows_of_reached reached).counts⟩
      refine found.flatMap ?_
      rintro m _ ⟨rfl, shifts⟩
      exact second env m shifts
    | snooze g ih =>
      cases n with
      | zero => exact .unforced
      | succ n => exact .forced (fewer n (Nat.lt_succ_self n) g env s shifts)
    | fresh names g ih =>
      simp only [Goal.rename, Goal.apply, shifts.freshVars, ← Env.rename_extend]
      exact ih _ _ (shifts.mono (s.grows_freshVars names.length).counts)
    | trace label g ih =>
      simp only [Goal.rename, Goal.apply, ← Stream.flatMap_singleton_comp]
      refine (ih env s shifts).flatMap ?_
      rintro m _ rfl
      exact .singleton rfl
    | call relation args =>
      cases n with
      | zero => exact .unforced
      | succ n =>
        refine .forced ?_
        simp only [Suspension.resume, unfold, definition?_rename, Term.instances_rename]
        cases p.definition? relation with
        | none => exact .empty
        | some d =>
          have body := fewer n (Nat.lt_succ_self n) (Goal.conj d.body)
            (Env.extend [] d.params (args.map (·.instantiate env.term))) s shifts
          rw [Goal.rename_conj, Env.rename_extend] at body
          exact body

/--
Answers do not depend on the numbers of variables.

Different new names are given to all variables, without a gap from the next unused one on.
Reading the renamed search shows the same steps and the renamed states, which count the same number
of variables as used and say the same about renamed terms.
Goals that query facts are renamed with the facts.
-/
theorem explore_rename (p : Program) (g : Goal) (env : Env) (s : State) (counter : Nat)
    (π : Var ↪ Var) (shifts : ∀ i, π ⟨s.nextVar + i⟩ = ⟨counter + i⟩) :
    (∀ fuel wanted,
      ((g.rename π).apply (env.rename π) ⟨s.bindings.rename π, counter⟩).explore
          (p.rename π).unfold fuel wanted =
        ((g.apply env s).explore p.unfold fuel wanted).map (State.rename π)) ∧
    (∀ s', Stream.Reached p.unfold s' (g.apply env s) →
      ∃ used, s'.nextVar = s.nextVar + used ∧ (s'.rename π).nextVar = counter + used) ∧
    (∀ (s' : State) (t : Term Var), (s'.rename π).reify (t.map π) = s'.reify t) ∧
    ∀ (db : Database) name args, (db.query name args).rename π =
      (db.rename π).query name (args.map (·.map (Name.rename π))) := by
  -- The shift moves the first unused variable to the given counter.
  have next : (π ⟨s.nextVar⟩).id = counter := by
    have first := shifts 0
    rw [Nat.add_zero, Nat.add_zero] at first
    rw [first]
  have renamed : s.rename π = ⟨s.bindings.rename π, counter⟩ := by rw [State.rename, next]
  refine ⟨fun fuel wanted => ?_, fun s' reached => ?_, State.reify_rename π,
    Database.rename_query π⟩
  · rw [← renamed]
    have shiftsHere : s.Shifts π := by
      intro i
      rw [renamed]
      exact shifts i
    exact (lockstep_apply p fuel g env s shiftsHere).explore_eq_map wanted
  · -- As many variables have been taken as the counter has gone up.
    obtain ⟨used, count⟩ := Nat.exists_eq_add_of_le (grows_of_reached reached).counts
    refine ⟨used, count, ?_⟩
    show (π ⟨s'.nextVar⟩).id = counter + used
    rw [count, shifts used]

/-- With two variables swapped and the unused ones moved, an item is found by the same steps. -/
theorem explore_rename_swapped :
    ∃ π : Var ↪ Var, (∀ i, π ⟨2 + i⟩ = ⟨5 + i⟩) ∧ ∀ fuel wanted,
      ((Goal.membero (.var (.numbered ⟨0⟩)) (.var (.numbered ⟨1⟩))).apply []
          ((State.mk .empty 5).bind ⟨1⟩ (.pair (.int 7) .unit))).explore
          Program.standard.unfold fuel wanted =
        (((Goal.membero (.var (.numbered ⟨1⟩)) (.var (.numbered ⟨0⟩))).apply []
          ((State.mk .empty 2).bind ⟨0⟩ (.pair (.int 7) .unit))).explore
          Program.standard.unfold fuel wanted).map (State.rename π) := by
  -- The two variables in use change places, and all others move up by three.
  let swapped (x : Var) : Var := ⟨if x.id < 2 then 1 - x.id else x.id + 3⟩
  have injective : Function.Injective swapped := by
    rintro ⟨i⟩ ⟨j⟩ same
    have ids : (if i < 2 then 1 - i else i + 3) = if j < 2 then 1 - j else j + 3 :=
      Var.mk.inj same
    rw [Var.mk.injEq]
    split at ids <;> split at ids <;> omega
  have shifts : ∀ i, swapped ⟨2 + i⟩ = ⟨5 + i⟩ := by
    intro i
    show Var.mk (if 2 + i < 2 then 1 - (2 + i) else 2 + i + 3) = ⟨5 + i⟩
    rw [if_neg (by omega), Var.mk.injEq]
    omega
  exact ⟨⟨swapped, injective⟩, shifts,
    (explore_rename Program.standard (.membero (.var (.numbered ⟨1⟩)) (.var (.numbered ⟨0⟩))) []
      ((State.mk .empty 2).bind ⟨0⟩ (.pair (.int 7) .unit)) 5 ⟨swapped, injective⟩ shifts).1⟩

end Program

end Relational
