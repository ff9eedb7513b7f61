import Relational.Answer.Text
import Relational.Relation
import Relational.Stream.Explore

/-! Running goals: the states a search reaches, and the rows of answers they hold. -/

namespace Relational.Program

/-- The first states in which a goal holds, unless they take more than `fuel` forcings. -/
def states? (p : Program) (fuel : Nat) (limit : Limit) (g : Goal) (env : Env) (s : State) :
    Option (List State) :=
  (g.apply env s).collect p.unfold fuel limit

/-- The answers for fresh variables of the given names, one row for every state found. -/
def run? (p : Program) (fuel : Nat) (limit : Limit) (names : List String) (g : Goal) :
    Option (List Row) :=
  let (vars, s) := State.empty.freshVars names.length
  (p.states? fuel limit g (Env.extend [] names vars) s).map fun states =>
    states.map fun s' => s'.reifyAll vars

/-- The answers for the first variables that a goal introduces itself. -/
def runGoal? (p : Program) (fuel : Nat) (limit : Limit) (tracked : Nat) (g : Goal) :
    Option (List Row) :=
  let vars := (List.range tracked).map fun i => (.var ⟨i⟩ : Term Var)
  (p.states? fuel limit g [] .empty).map fun states => states.map fun s => s.reifyAll vars

/-- The first `count` rows of a run, each of them searched for only when it is asked for. -/
def pullRows? (p : Program) (fuel count : Nat) (names : List String) (g : Goal) :
    Option (List Row) :=
  let (vars, s) := State.empty.freshVars names.length
  ((g.apply (Env.extend [] names vars) s).pullMany p.unfold fuel count).map fun states =>
    states.map fun s' => s'.reifyAll vars

end Relational.Program
