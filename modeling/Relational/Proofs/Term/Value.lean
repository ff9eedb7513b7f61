import Relational.Answer.Basic
import Relational.Proofs.Substitution.Assignment

/-! Values: terms without variables and expressions, which stand for the same in every state. -/

namespace Relational

/-- A term without variables and expressions. -/
inductive Value where
  | unit
  | str (text : String)
  | int (value : Int64)
  | bool (value : Bool)
  | pair (first rest : Value)
  deriving DecidableEq

namespace Value

variable {ν μ : Type}

/-- A value as a term, over variables of any kind. -/
def term : Value → Term ν
  | .unit => .unit
  | .str text => .str text
  | .int value => .int value
  | .bool value => .bool value
  | .pair a d => .pair a.term d.term

/-- The proper list of the given values. -/
def list (items : List Value) : Value :=
  items.foldr .pair .unit

/-- What a finished search says about a value. -/
def answer (v : Value) : Answer :=
  .ofTerm v.term

/-- Different values are different terms. -/
theorem term_injective : Function.Injective (term : Value → Term ν) := by
  intro v w same
  -- Pairs are compared part by part, and leaves by what they hold.
  induction v generalizing w with
  | pair a d first rest =>
    cases w with
    | pair b e =>
      obtain ⟨left, right⟩ := Term.pair.inj same
      rw [first left, rest right]
    | _ => cases same
  | _ =>
    cases w <;> cases same
    rfl

/-- No variable occurs in a value. -/
@[simp] theorem vars_term (v : Value) : (v.term : Term ν).vars = [] := by
  -- Only pairs have parts, and their variables are those of the parts.
  induction v with
  | pair a d first rest => rw [term, Term.vars, first, rest, List.append_nil]
  | _ => rfl

/-- The terms without variables and expressions are the values. -/
theorem exists_term_eq_iff {t : Term ν} : (∃ v : Value, v.term = t) ↔ t.vars = [] ∧ t.ExprFree := by
  constructor
  · -- A value has neither by its making.
    rintro ⟨v, rfl⟩
    refine ⟨v.vars_term, ?_⟩
    induction v with
    | pair a d first rest => exact ⟨first, rest⟩
    | _ => trivial
  · -- Each kind of term is the value of that kind, or is ruled out.
    rintro ⟨ground, plain⟩
    induction t with
    | unit => exact ⟨.unit, rfl⟩
    | str text => exact ⟨.str text, rfl⟩
    | int value => exact ⟨.int value, rfl⟩
    | bool value => exact ⟨.bool value, rfl⟩
    | var x => cases ground
    | expr l op r => exact plain.elim
    | pair a d first rest =>
      obtain ⟨noFirst, noRest⟩ := List.append_eq_nil_iff.1 ground
      obtain ⟨v, rfl⟩ := first noFirst plain.1
      obtain ⟨w, rfl⟩ := rest noRest plain.2
      exact ⟨.pair v w, rfl⟩

/-- A value has no variables that anything could be put in for. -/
@[simp] theorem instantiate_term (f : ν → Term μ) (v : Value) : v.term.instantiate f = v.term := by
  -- There is nothing to put in at the leaves.
  induction v with
  | pair a d first rest => rw [term, Term.instantiate, first, rest, term]
  | _ => rfl

/-- A value stands for itself. -/
@[simp] theorem walkStar_term (s : Substitution) (v : Value) : s.walkStar v.term = v.term := by
  rw [Substitution.walkStar_eq_resolve]
  -- Resolving finds neither variables nor operators.
  induction v with
  | pair a d first rest => rw [term, Term.resolve, first, rest]
  | _ => rfl

/-- A value is no expression. -/
@[simp] theorem isExpr_term (v : Value) : (v.term : Term ν).isExpr = false := by
  cases v <;> rfl

/-- A value is no variable. -/
theorem term_ne_var (v : Value) (x : ν) : v.term ≠ .var x := by
  cases v <;> nofun

/-- A list of values is the list of their terms. -/
theorem term_list (items : List Value) :
    (list items).term = Term.list (items.map term : List (Term ν)) := by
  -- A list is a chain of pairs on both sides.
  induction items with
  | nil => rfl
  | cons item items ih =>
    show Term.pair item.term (list items).term = _
    rw [ih]
    rfl

/-- Lists are equal if their items are. -/
theorem list_injective : Function.Injective list := by
  intro items others same
  -- Items are compared from the front.
  induction items generalizing others with
  | nil =>
    cases others with
    | nil => rfl
    | cons other others => cases same
  | cons item items ih =>
    cases others with
    | nil => cases same
    | cons other others =>
      obtain ⟨first, rest⟩ := Value.pair.inj same
      rw [first, ih rest]

/-- What a finished search says about a list of values. -/
def answers (items : List Value) : Answer :=
  .ofItems (items.map answer)

/-- What is said about a list is the list of what is said about its items. -/
theorem answer_list (items : List Value) : (list items).answer = answers items := by
  induction items with
  | nil => rfl
  | cons item items ih =>
    show item.answer.cons (list items).answer = _
    -- An empty rest gives a list of one item, as does a rest of no items.
    rw [ih]
    cases items <;> rfl

end Value

/-- A state says of a term that stands for a list what there is to say about the list. -/
theorem State.reify_eq_answers {s : State} {t : Term Var} {items : List Value}
    (stands : s.walkStar t = (Value.list items).term) : s.reify t = Value.answers items := by
  -- What is said is read off the term that is stood for.
  rw [reify, stands, ← Value.answer_list, Value.answer]

end Relational
