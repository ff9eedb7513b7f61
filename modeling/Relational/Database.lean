import Relational.Goal.Basic

/-! Tables of facts, and goals that hold once for every fact that fits. -/

namespace Relational

/-- Facts, in the order they were added. -/
structure Table where
  facts : List (List (Term Var))
  deriving DecidableEq

namespace Table

/-- The table without facts. -/
def empty : Table :=
  ⟨[]⟩

/-- Adds a fact behind all others. -/
def push (table : Table) (fact : List (Term Var)) : Table :=
  ⟨table.facts ++ [fact]⟩

/-- How many facts a table has. -/
def size (table : Table) : Nat :=
  table.facts.length

/-- Whether a table has no facts. -/
def isEmpty (table : Table) : Bool :=
  table.facts.isEmpty

/-- The terms are equal to the columns of a fact. -/
def factGoal (args : List (Term Name)) (fact : List (Term Var)) : Goal :=
  .conj (List.zipWith (fun arg value => .eq arg (value.map .numbered)) args fact)

/-- Terms and columns are paired up before they are made into equations. -/
theorem factGoal_eq_conj (args : List (Term Name)) (fact : List (Term Var)) :
    factGoal args fact =
      .conj ((args.zip fact).map fun column => .eq column.1 (column.2.map .numbered)) := by
  -- Pairing up and mapping is what `zipWith` does at once.
  rw [factGoal, List.zip, List.map_zipWith]

/-- Some fact with as many columns as there are terms is equal to them. -/
def goal (table : Table) (args : List (Term Name)) : Goal :=
  .disj ((table.facts.filter fun fact => fact.length == args.length).map (factGoal args))

/-- The facts of a table, as a record. -/
def recordText (table : Table) : String :=
  let factText (fact : List (Term Var)) := "[" ++ ", ".intercalate (fact.map Term.text) ++ "]"
  "Relation \x7b facts: [" ++ ", ".intercalate (table.facts.map factText) ++ "] \x7d"

end Table

/-- Looking a key up finds the first entry if it has that key, and looks further otherwise. -/
theorem lookup_cons_eq_ite {κ α : Type} [DecidableEq κ] (key sought : κ) (a : α)
    (rest : List (κ × α)) :
    ((key, a) :: rest).lookup sought = if sought = key then some a else rest.lookup sought := by
  -- The key of the first entry decides whether the lookup stops there.
  by_cases same : sought = key
  · simp [same]
  · simp [List.lookup_cons, beq_eq_false_iff_ne.2 same, same]

/-- Tables by name, in the order of their first facts. -/
structure Database where
  tables : List (String × Table)

namespace Database

/-- The database without tables. -/
def empty : Database :=
  ⟨[]⟩

/-- The table of a name, if any fact was put into it. -/
def table? (db : Database) (name : String) : Option Table :=
  db.tables.lookup name

/-- Adds a fact to the table of a name, which is made if there is none. -/
def insertInto (name : String) (fact : List (Term Var)) :
    List (String × Table) → List (String × Table)
  | [] => [(name, Table.empty.push fact)]
  | (other, table) :: rest =>
    if other = name then (other, table.push fact) :: rest
    else (other, table) :: insertInto name fact rest

/-- Adds a fact to the table of a name. -/
def insert (db : Database) (name : String) (fact : List (Term Var)) : Database :=
  ⟨insertInto name fact db.tables⟩

/-- Adding a fact puts it last in its own table, and leaves every other table alone. -/
theorem table?_insert (db : Database) (name other : String) (fact : List (Term Var)) :
    (db.insert name fact).table? other =
      if other = name then some (((db.table? name).getD .empty).push fact) else db.table? other := by
  show (insertInto name fact db.tables).lookup other = if other = name then
    some (((db.tables.lookup name).getD .empty).push fact) else db.tables.lookup other
  -- Adding looks for the table as the lookup does, one entry after the other.
  induction db.tables with
  | nil => simp [insertInto, lookup_cons_eq_ite]
  | cons first rest ih =>
    obtain ⟨key, table⟩ := first
    rw [insertInto]
    split
    -- The first table of the name is the one that is looked up.
    next found => subst found; simp only [lookup_cons_eq_ite]; split <;> simp
    next different =>
      simp only [lookup_cons_eq_ite, ih, if_neg (Ne.symm different)]
      -- The first table is another one than that of the name, so it is left alone.
      by_cases same : other = key
      · simp [same, different]
      · simp [same]

/-- Some fact of a table is equal to the terms; a table that does not exist has none. -/
def query (db : Database) (name : String) (args : List (Term Name)) : Goal :=
  match db.table? name with
  | some table => table.goal args
  | none => .fail

end Database

end Relational
