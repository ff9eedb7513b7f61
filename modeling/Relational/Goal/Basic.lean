import Relational.State.Unify

/-! Goals: what a search has to make true, and the stream of states in which it is. -/

namespace Relational

/-- A variable as a goal mentions it: by its number, or by the name a binder gave it. -/
inductive Name where
  | numbered (x : Var)
  | bound (name : String)
  deriving DecidableEq

/-- The terms that names stand for, those of the innermost binders first. -/
abbrev Env := List (String × Term Var)

namespace Env

/-- Gives names their terms; of equal names the last one counts. -/
def extend (env : Env) (names : List String) (terms : List (Term Var)) : Env :=
  (names.zip terms).reverse ++ env

/-- What a mentioned variable stands for; a name without binder stands for its own text. -/
def term (env : Env) : Name → Term Var
  | .numbered x => .var x
  | .bound name => (env.lookup name).getD (.str name)

end Env

/-- The relations on lists that every program has. -/
inductive ListRelation where
  | null
  | cons
  | first
  | rest
  | pair
  | member
  | append
  | length
  deriving DecidableEq

/-- The name of a relation: one on lists, or one that a program defines itself. -/
inductive RelationName where
  | list (relation : ListRelation)
  | named (name : String)
  deriving DecidableEq

/-- A condition on a search state. -/
inductive Goal where
  /-- Two terms can be made equal. -/
  | eq (u v : Term Name)
  /-- Two terms cannot be made equal, as things stand. -/
  | disunify (u v : Term Name)
  | succeed
  | fail
  /-- Searched for ever without an answer. -/
  | never
  /-- Answered for ever. -/
  | always
  /-- At least one of two goals holds, their answers taking turns. -/
  | disj2 (g h : Goal)
  /-- Both goals hold, the second in every state the first one gives. -/
  | conj2 (g h : Goal)
  /-- A goal that is looked at only when its answers are asked for. -/
  | snooze (g : Goal)
  /-- A goal about as many fresh variables as there are names. -/
  | fresh (names : List String) (g : Goal)
  /-- A goal with a label, and the same answers. -/
  | trace (label : String) (g : Goal)
  /-- A relation holds between some terms. -/
  | call (relation : RelationName) (args : List (Term Name))

/-- Search work that can come back to itself. -/
inductive Job where
  | never
  | always (s : State)
  | call (relation : RelationName) (args : List (Term Var)) (s : State)

namespace Goal

/-- All goals hold, each of them looked at only when it is reached. -/
def conj (goals : List Goal) : Goal :=
  goals.foldl (fun earlier g => .conj2 earlier (.snooze g)) .succeed

/-- At least one goal holds, each of them looked at only when its turn comes. -/
def disj (goals : List Goal) : Goal :=
  goals.foldl (fun earlier g => .disj2 earlier (.snooze g)) .fail

/-- All goals of at least one clause hold. -/
def conde (clauses : List (List Goal)) : Goal :=
  disj (clauses.map conj)

/-- A goal about fresh variables that asks for several things. -/
def freshAll (names : List String) (goals : List Goal) : Goal :=
  .fresh names (conj goals)

/-- The text that stands for every goal. -/
def text (_ : Goal) : String :=
  "<goal>"

/-- The states in which a goal holds, from a state in which names stand for the terms of `env`. -/
def apply : Goal → Env → State → Stream Job State
  | .eq u v, env, s => (s.unify (u.instantiate env.term) (v.instantiate env.term)).lift
  | .disunify u v, env, s => (s.disunify (u.instantiate env.term) (v.instantiate env.term)).lift
  | .succeed, _, s => .singleton s
  | .fail, _, _ => .empty
  | .never, _, _ => .immature (.source .never)
  | .always, _, s => .immature (.source (.always s))
  | .disj2 g h, env, s => g.apply env s ++ h.apply env s
  | .conj2 g h, env, s => (g.apply env s).flatMap fun s' => h.apply env s'
  | .snooze g, env, s => .immature (.delay fun _ => g.apply env s)
  | .fresh names g, env, s =>
    let (vars, s') := s.freshVars names.length
    g.apply (env.extend names vars) s'
  | .trace _ g, env, s => (g.apply env s).map fun s' => s'
  | .call relation args, env, s =>
    .immature (.source (.call relation (args.map (·.instantiate env.term)) s))

end Goal

end Relational
