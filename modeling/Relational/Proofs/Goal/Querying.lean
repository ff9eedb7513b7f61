import Mathlib.Data.List.Perm.Basic
import Relational.Proofs.Goal.Derivation
import Relational.Proofs.Goal.Finishing
import Relational.Proofs.Goal.Plain

/-! Queries: each fact of a table answers for itself, whatever else is in the database. -/

namespace Relational

/--
The states in which the two terms of every column are equal, made so one column after the other.

A column may be made equal in several ways, or in none.
-/
def State.thread : List (Term Var × Term Var) → State → List State
  | [], s => [s]
  | (u, v) :: columns, s => (s.unify u v).members.flatMap (thread columns)

/-- The search for a goal ends, and leads to these states in some order. -/
def Program.Yields (p : Program) (g : Goal) (env : Env) (s : State) (states : List State) : Prop :=
  ∃ found n, p.Finishes g env s found n ∧ found.Perm states

/-- The order in which states are listed makes no difference. -/
theorem Program.Yields.perm {p : Program} {g : Goal} {env : Env} {s : State}
    {states others : List State} (yields : p.Yields g env s states) (same : states.Perm others) :
    p.Yields g env s others := by
  obtain ⟨found, n, ends, order⟩ := yields
  -- The stream still ends with the same states, in its own order.
  exact ⟨found, n, ends, order.trans same⟩

namespace Table

variable {args : List (Term Name)} {row : List (Term Var)} {env : Env} {s : State}

/-- The goal of a fact has nothing but equations. -/
theorem finitary_factGoal (args : List (Term Name)) (row : List (Term Var)) :
    (factGoal args row).Finitary := by
  -- A fact asks for a conjunction of equations, one for each column.
  rw [factGoal_eq_conj, Goal.finitary_conj_iff]
  intro g member
  obtain ⟨column, _, rfl⟩ := List.mem_map.1 member
  trivial

/-- A fact holds in the states in which its columns are equal to the terms in question. -/
theorem found_factGoal : (factGoal args row).found env s =
    s.thread ((args.map (·.instantiate env.term)).zip row) := by
  rw [factGoal_eq_conj, Goal.found_conj, List.zip_map_left]
  induction args.zip row generalizing s with
  | nil => rfl
  | cons column columns ih =>
    -- The values of a fact have no names, so no binder changes them.
    simp only [List.map_cons, List.foldr_cons, Goal.found, Term.instantiate_map_numbered]
    exact List.flatMap_congr fun s' _ => ih

end Table

namespace Database

/-- A fact, and the name of the table that it is put into. -/
abbrev Entry := String × List (Term Var)

variable {db : Database} {name other : String} {args : List (Term Name)} {row : List (Term Var)}
  {entries before after : List Entry} {env : Env} {s : State}

/-- The database that has been filled with some facts, one after the other. -/
def ofEntries (entries : List Entry) : Database :=
  entries.foldl (fun db entry => db.insert entry.1 entry.2) .empty

/-- The facts that go into a table, in their order. -/
def rows (name : String) (entries : List Entry) : List (List (Term Var)) :=
  (entries.filter (·.1 = name)).map Prod.snd

/-- The facts that go into a table and have a number of columns, in their order. -/
def fitting (name : String) (count : Nat) (entries : List Entry) : List (List (Term Var)) :=
  (rows name entries).filter (·.length = count)

/-- The facts of a table, of which there are none if there is no such table. -/
def factsOf (db : Database) (name : String) : List (List (Term Var)) :=
  ((db.table? name).getD .empty).facts

/-- Adding a fact puts it behind those of its own table. -/
theorem factsOf_insert : (db.insert other row).factsOf name =
    db.factsOf name ++ if other = name then [row] else [] := by
  -- The table that was added to has the fact at its end, and all others are as they were.
  rw [factsOf, table?_insert]
  by_cases same : other = name
  · subst same
    simp [factsOf, Table.push]
  · simp [factsOf, same, Ne.symm same]

/-- The facts of a table are those that were put into it. -/
theorem factsOf_ofEntries : (ofEntries entries).factsOf name = rows name entries := by
  -- Whatever the database held before stays in front.
  have general : ∀ db : Database,
      (entries.foldl (fun db entry => db.insert entry.1 entry.2) db).factsOf name =
        db.factsOf name ++ rows name entries := by
    induction entries with
    | nil => simp [rows]
    | cons entry entries ih =>
      intro db
      rw [List.foldl_cons, ih, factsOf_insert, List.append_assoc]
      by_cases same : entry.1 = name <;> simp [rows, same]
  exact general .empty

/-- A query asks for some fact of its table that has as many columns as it has terms. -/
theorem query_eq_disj : db.query name args =
    .disj (((db.factsOf name).filter (·.length = args.length)).map (Table.factGoal args)) := by
  unfold query factsOf
  -- Without a table there is no fact, as with a table that has none.
  cases db.table? name with
  | none => rfl
  | some table => rfl

/-- What a query asks for is decided by the facts that fit it. -/
theorem query_ofEntries : (ofEntries entries).query name args =
    .disj ((fitting name args.length entries).map (Table.factGoal args)) := by
  -- Facts of other tables and with other numbers of columns do not enter.
  rw [query_eq_disj, factsOf_ofEntries]
  rfl

/-- A fact that goes into another table, or has another number of columns, does not fit. -/
theorem fitting_insert {count : Nat} (unfit : other ≠ name ∨ row.length ≠ count) :
    fitting name count (before ++ (other, row) :: after) = fitting name count (before ++ after) := by
  by_cases same : other = name
  · -- The fact goes into the table, so it has another number of columns.
    have different : row.length ≠ count := unfit.resolve_left fun apart => apart same
    simp [fitting, rows, same, different]
  · simp [fitting, rows, same]

/-- The states in which the facts that fit a query are equal to its terms. -/
def answers (name : String) (args : List (Term Var)) (entries : List Entry) (s : State) :
    List State :=
  (fitting name args.length entries).flatMap fun row => s.thread (args.zip row)

/-- A query ends with the states in which the facts that fit it are equal to its terms. -/
theorem yields_query (p : Program) : p.Yields ((ofEntries entries).query name args) env s
    (answers name (args.map (·.instantiate env.term)) entries s) := by
  -- There are only equations to look at, so the search ends.
  have finitary : ((ofEntries entries).query name args).Finitary := by
    rw [query_ofEntries, Goal.finitary_disj_iff]
    intro g member
    obtain ⟨row, _, rfl⟩ := List.mem_map.1 member
    exact Table.finitary_factGoal args row
  have found : ((ofEntries entries).query name args).found env s =
      answers name (args.map (·.instantiate env.term)) entries s := by
    rw [query_ofEntries, Goal.found_disj, List.flatMap_map]
    simp only [Table.found_factGoal, answers, List.length_map]
  rw [← found]
  exact finitary.exists_endsWith p env s

/-- Facts that are put in another order give the same answers, in another order. -/
theorem answers_perm {others : List Entry} (same : entries.Perm others) (terms : List (Term Var)) :
    (answers name terms entries s).Perm (answers name terms others s) := by
  -- The facts that fit are chosen one by one, wherever they stand.
  have sameRows : (rows name entries).Perm (rows name others) := (same.filter _).map Prod.snd
  exact (sameRows.filter _).flatMap_right _

/--
A query answers once for each fact of its table that fits.

The search for it ends, with the states in which the columns of such a fact are equal to the terms of the
query, one column after the other; a table without facts leads nowhere. So facts of other tables or with
another number of columns make no difference, and the order of all facts makes none but to the order of
the answers.
-/
theorem query_answers (p : Program) (entries : List Entry) (name : String) (args : List (Term Name))
    (env : Env) (s : State) :
    p.Yields ((ofEntries entries).query name args) env s
      (answers name (args.map (·.instantiate env.term)) entries s) ∧
    ((∀ entry ∈ entries, entry.1 ≠ name) →
      ((ofEntries entries).query name args).apply env s = .empty) ∧
    (∀ before after other row, entries = before ++ after →
      other ≠ name ∨ row.length ≠ args.length →
      (ofEntries (before ++ (other, row) :: after)).query name args =
        (ofEntries entries).query name args) ∧
    ∀ others, entries.Perm others → p.Yields ((ofEntries others).query name args) env s
      (answers name (args.map (·.instantiate env.term)) entries s) := by
  refine ⟨yields_query p, fun missing => ?_, fun before after other row joined unfit => ?_,
    fun others same => (yields_query p).perm (answers_perm same.symm _)⟩
  · -- Without facts there is no alternative, and the search ends where it starts.
    have none : entries.filter (·.1 = name) = [] := by simpa using missing
    rw [query_ofEntries, fitting, rows, none]
    rfl
  · rw [joined, query_ofEntries, query_ofEntries, fitting_insert unfit]

/-- Of four facts, the two with one column of the table in question answer. -/
theorem query_answers_two :
    let start := (State.empty.freshVars 1).2
    let pea : Entry := ("food", [.str "pea"])
    let bean : Entry := ("food", [.str "bean"])
    let soup : Entry := ("food", [.str "pea", .str "soup"])
    let likes : Entry := ("likes", [.str "pea"])
    let ask (entries : List Entry) := (ofEntries entries).query "food" [.var (.numbered ⟨0⟩)]
    Program.standard.Yields (ask [pea, bean]) [] start
      [start.bind ⟨0⟩ (.str "pea"), start.bind ⟨0⟩ (.str "bean")] ∧
    (ask [likes]).apply [] start = .empty ∧
    ask [pea, likes, bean] = ask [pea, bean] ∧ ask [pea, soup, bean] = ask [pea, bean] ∧
    Program.standard.Yields (ask [bean, pea]) [] start
      [start.bind ⟨0⟩ (.str "pea"), start.bind ⟨0⟩ (.str "bean")] := by
  -- The statement is taken for the facts that answer, for the facts that do not, and for both orders.
  intro start pea bean soup likes ask
  obtain ⟨yields, _, others, order⟩ := query_answers .standard [pea, bean] "food"
    [.var (.numbered ⟨0⟩)] [] start
  obtain ⟨_, missing, _⟩ := query_answers .standard [likes] "food" [.var (.numbered ⟨0⟩)] [] start
  exact ⟨yields, missing (by simp [likes]), others [pea] [bean] _ _ rfl (.inl (by decide)),
    others [pea] [bean] _ _ rfl (.inr (by decide)), order _ (.swap _ _ _)⟩

end Database

end Relational
