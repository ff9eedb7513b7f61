import Mathlib.Data.Set.Function
import Relational.Proofs.Term.Value

/-! Canonical answers: every value has an answer of its own, and no search gives any other shape. -/

namespace Relational

namespace Answer

/-- A property holds of every answer if it holds of each one made of answers that have it. -/
@[elab_as_elim, induction_eliminator]
theorem itemInduction {motive : Answer → Prop} (nil : motive .nil) (str : ∀ text, motive (.str text))
    (int : ∀ value, motive (.int value)) (bool : ∀ value, motive (.bool value))
    (list : ∀ items, (∀ a ∈ items, motive a) → motive (.list items))
    (improper : ∀ items tail, (∀ a ∈ items, motive a) → motive tail → motive (.improper items tail))
    (unknown : motive .unknown) (a : Answer) : motive a :=
  -- Lists of answers are gone through item by item.
  @Answer.rec motive (fun items => ∀ a ∈ items, motive a) nil str int bool list improper unknown
    nofun (fun _ _ first others => List.forall_mem_cons.2 ⟨first, others⟩) a

/-- One answer is another one, or one of those it is made of. -/
inductive Part (part : Answer) : Answer → Prop where
  | self : Part part part
  | item {items : List Answer} {a : Answer} (member : a ∈ items) (inside : Part part a) :
      Part part (.list items)
  | improperItem {items : List Answer} {a tail : Answer} (member : a ∈ items) (inside : Part part a) :
      Part part (.improper items tail)
  | tail {items : List Answer} {tail : Answer} (inside : Part part tail) :
      Part part (.improper items tail)

/-- A property holds of an answer and of everything in it. -/
def Throughout (P : Answer → Prop) (whole : Answer) : Prop :=
  ∀ part, Part part whole → P part

/-- Whether an answer is not made of others. -/
def isSimple : Answer → Bool
  | .list _ | .improper .. => false
  | _ => true

/-- A list has items, and an improper one ends neither in the empty list nor in another one. -/
def WellShaped : Answer → Prop
  | .list items => items ≠ []
  | .improper items tail => items ≠ [] ∧ tail ≠ .nil ∧ tail.isSimple = true
  | _ => True

/-- Every list in an answer is well shaped. -/
def Canonical : Answer → Prop :=
  Throughout WellShaped

/-- Nothing in an answer is unknown. -/
def Known : Answer → Prop :=
  Throughout (· ≠ .unknown)

section Throughout

variable {P : Answer → Prop} {a first rest tail : Answer} {items : List Answer}

/-- What holds throughout an answer holds of it. -/
theorem Throughout.self (all : Throughout P a) : P a :=
  all a .self

/-- What holds of a simple answer holds throughout it. -/
theorem throughout_of_isSimple (simple : a.isSimple = true) (holds : P a) : Throughout P a := by
  intro part inside
  cases inside with
  -- A simple answer has no part but itself.
  | self => exact holds
  | _ => cases simple

/-- What holds throughout a list holds of the list and throughout its items. -/
theorem throughout_list_iff :
    Throughout P (.list items) ↔ P (.list items) ∧ ∀ a ∈ items, Throughout P a := by
  refine ⟨fun all => ⟨all.self, fun a member part inside => all part (.item member inside)⟩, ?_⟩
  -- The parts of a list are the list itself and the parts of its items, one constructor for each.
  rintro ⟨whole, each⟩ part inside
  cases inside with
  | self => exact whole
  | item member inside => exact each _ member part inside

/-- What holds throughout an improper list holds of it, throughout its items and throughout its tail. -/
theorem throughout_improper_iff :
    Throughout P (.improper items tail) ↔
      P (.improper items tail) ∧ (∀ a ∈ items, Throughout P a) ∧ Throughout P tail := by
  refine ⟨fun all => ⟨all.self, fun a member part inside => all part (.improperItem member inside),
    fun part inside => all part (.tail inside)⟩, ?_⟩
  -- The same split as for a list, with the tail as a third place where a part may stand.
  rintro ⟨whole, each, last⟩ part inside
  cases inside with
  | self => exact whole
  | improperItem member inside => exact each _ member part inside
  | tail inside => exact last part inside

/-- What holds throughout the components of a pair, and of the pair, holds throughout the pair. -/
theorem Throughout.cons (front : Throughout P first) (back : Throughout P rest)
    (whole : P (first.cons rest)) : Throughout P (first.cons rest) := by
  -- What becomes of the pair depends on its rest: a list grows by an item, and anything else is a tail.
  cases rest with
  | list items =>
    exact throughout_list_iff.2 ⟨whole, List.forall_mem_cons.2 ⟨front, (throughout_list_iff.1 back).2⟩⟩
  | improper items tail =>
    obtain ⟨_, each, last⟩ := throughout_improper_iff.1 back
    exact throughout_improper_iff.2 ⟨whole, List.forall_mem_cons.2 ⟨front, each⟩, last⟩
  | nil => exact throughout_list_iff.2 ⟨whole, by simpa using front⟩
  | _ => exact throughout_improper_iff.2 ⟨whole, by simpa using front, back⟩

end Throughout

section Pairs

variable {first other rest again : Answer}

/-- A pair is well shaped if its rest is. -/
theorem WellShaped.cons (shaped : rest.WellShaped) : (first.cons rest).WellShaped := by
  cases rest with
  -- An improper list keeps its tail, and gets one item more.
  | improper items tail => exact ⟨List.cons_ne_nil _ _, shaped.2⟩
  | nil => exact List.cons_ne_nil _ _
  | list items => exact List.cons_ne_nil _ _
  -- Any other rest becomes the tail of a new improper list, and it is neither a list nor the empty one.
  | _ => exact ⟨List.cons_ne_nil _ _, nofun, rfl⟩

/-- A pair is made of other answers. -/
theorem isSimple_cons : (first.cons rest).isSimple = false := by
  cases rest <;> rfl

/-- No pair has a simple answer. -/
theorem cons_ne_of_isSimple {a : Answer} (simple : a.isSimple = true) : first.cons rest ≠ a := by
  rintro rfl
  -- The two sides differ in whether other answers occur in them.
  rw [isSimple_cons] at simple
  cases simple

/-- The first item of a list, and the answer for what is behind it. -/
def uncons? : Answer → Option (Answer × Answer)
  | .list [a] => some (a, .nil)
  | .list (a :: items) => some (a, .list items)
  | .improper [a] tail => some (a, tail)
  | .improper (a :: items) tail => some (a, .improper items tail)
  | _ => none

/-- Taking a pair apart gives its components back, unless the rest is a list without items. -/
theorem uncons?_cons (shaped : rest.WellShaped) : uncons? (first.cons rest) = some (first, rest) := by
  cases rest with
  | list items =>
    -- A well shaped list has a first item, so it is not what the pair with an empty rest is answered by.
    obtain ⟨item, items, rfl⟩ := List.exists_cons_of_ne_nil shaped
    rfl
  | improper items tail =>
    obtain ⟨item, items, rfl⟩ := List.exists_cons_of_ne_nil shaped.1
    rfl
  | _ => rfl

/-- Different pairs have different answers. -/
theorem cons_inj (shaped : rest.WellShaped) (shapedToo : again.WellShaped)
    (same : first.cons rest = other.cons again) : first = other ∧ rest = again := by
  -- Both pairs are taken apart again, and give the same components.
  have apart := congrArg uncons? same
  rw [uncons?_cons shaped, uncons?_cons shapedToo] at apart
  simpa using apart

/-- Items in front of something that is no list make an improper list. -/
theorem foldr_cons_eq_improper {items : List Answer} {tail : Answer}
    (shaped : (improper items tail).WellShaped) : items.foldr cons tail = .improper items tail := by
  obtain ⟨occupied, proper, simple⟩ := shaped
  induction items with
  | nil => exact absurd rfl occupied
  | cons item items ih =>
    cases items with
    | nil =>
      -- The last item meets the end itself.
      cases tail with
      | nil => exact absurd rfl proper
      | list items => cases simple
      | improper items tail => cases simple
      | _ => rfl
    | cons later items =>
      -- Every item in front of it meets an improper list, and is put in front of its items.
      rw [List.foldr_cons, ih (List.cons_ne_nil _ _)]
      rfl

end Pairs

/-- What a search says about a term is canonical. -/
theorem canonical_ofTerm (t : Term Var) : (ofTerm t).Canonical := by
  induction t with
  -- Only pairs put answers together, and `cons` keeps both the parts and the shape of the whole.
  | pair a d first rest => exact first.cons rest rest.self.cons
  | _ => exact throughout_of_isSimple rfl trivial

/-- The answer for a pair lists the items of its chain, and gives the end unless that is the empty list. -/
theorem ofTerm_pair_eq_split (a d : Term Var) : ofTerm (.pair a d) =
    if d.split.2 = .unit then .list ((a :: d.split.1).map ofTerm)
    else .improper ((a :: d.split.1).map ofTerm) (ofTerm d.split.2) := by
  -- The chain goes on with the rest, whose answer the first item is put in front of.
  induction d generalizing a with
  | pair b e _ ih =>
    show (ofTerm a).cons (ofTerm (.pair b e)) = _
    rw [ih b, Term.split]
    split <;> rfl
  | _ => rfl

end Answer

namespace Value

open Answer

/-- Everything in the answer for a value is known. -/
theorem known_answer (v : Value) : v.answer.Known := by
  induction v with
  -- A pair is never answered by an unknown, which is simple.
  | pair a d first rest => exact first.cons rest (cons_ne_of_isSimple rfl)
  | _ => exact throughout_of_isSimple rfl nofun

/-- Different values have different answers. -/
theorem answer_injective : Function.Injective answer := by
  intro v w same
  induction v generalizing w with
  | pair a d first rest =>
    cases w with
    | pair b e =>
      -- The answer of a pair can be taken apart, because the answers of values are well shaped.
      obtain ⟨left, right⟩ := cons_inj (canonical_ofTerm d.term).self (canonical_ofTerm e.term).self same
      rw [first left, rest right]
    | _ => exact (cons_ne_of_isSimple rfl same).elim
  | _ =>
    -- Leaves keep their kind and their content.
    cases w with
    | pair b e => exact (cons_ne_of_isSimple rfl same.symm).elim
    | _ => cases same <;> rfl

/-- The answer for a chain of values is put together from the answers for them. -/
theorem answer_foldr (values : List Value) (tail : Value) :
    (values.foldr .pair tail).answer = (values.map answer).foldr cons tail.answer := by
  induction values with
  | nil => rfl
  -- One pair of the chain is one `cons` of the answers.
  | cons v values ih => exact congrArg v.answer.cons ih

/-- Values with given answers can be found for all items of a list if they can be found for each. -/
theorem exists_map_answer {items : List Answer} (each : ∀ a ∈ items, ∃ v : Value, v.answer = a) :
    ∃ values : List Value, values.map answer = items := by
  -- The values are chosen item by item; this is what it is for a list to lie in the image of `List.map`.
  have range : items ∈ Set.range (List.map answer) := by
    rw [Set.range_list_map]
    exact each
  exact range

/-- Every canonical answer in which everything is known is the answer for some value. -/
theorem exists_answer_eq (a : Answer) (canonical : a.Canonical) (known : a.Known) :
    ∃ v : Value, v.answer = a := by
  induction a with
  -- By induction on the answer: each one is taken back to the value it is read off from.
  | nil => exact ⟨.unit, rfl⟩
  | str text => exact ⟨.str text, rfl⟩
  | int value => exact ⟨.int value, rfl⟩
  | bool value => exact ⟨.bool value, rfl⟩
  | unknown => exact absurd rfl known.self
  | list items ih =>
    obtain ⟨occupied, shaped⟩ := throughout_list_iff.1 canonical
    obtain ⟨_, eachKnown⟩ := throughout_list_iff.1 known
    obtain ⟨values, rfl⟩ := exists_map_answer fun a member =>
      ih a member (shaped a member) (eachKnown a member)
    refine ⟨list values, ?_⟩
    -- A list without items would be answered by the empty list.
    rw [answer_list, answers]
    cases values with
    | nil => exact absurd rfl occupied
    | cons v values => rfl
  | improper items tail ih last =>
    obtain ⟨whole, shaped, tailShaped⟩ := throughout_improper_iff.1 canonical
    obtain ⟨_, eachKnown, tailKnown⟩ := throughout_improper_iff.1 known
    obtain ⟨values, rfl⟩ := exists_map_answer fun a member =>
      ih a member (shaped a member) (eachKnown a member)
    -- The tail is well shaped and no list, so the chain ends where the answer's items end.
    obtain ⟨w, rfl⟩ := last tailShaped tailKnown
    refine ⟨values.foldr .pair w, ?_⟩
    rw [answer_foldr, foldr_cons_eq_improper whole]

end Value

namespace Answer

/--
Answers are canonical, and lose nothing of a value.

The answer for a chain of pairs lists the answers for its items, and what a search says about any term is
canonical. On the terms without variables and expressions it is a bijection to the canonical answers in
which everything is known, so that two of them have the same answer exactly if they are the same term.
-/
theorem ofTerm_canonical_bijOn :
    (∀ a d : Term Var, ofTerm (.pair a d) =
      if d.split.2 = .unit then .list ((a :: d.split.1).map ofTerm)
      else .improper ((a :: d.split.1).map ofTerm) (ofTerm d.split.2)) ∧
      (∀ t : Term Var, (ofTerm t).Canonical) ∧
      Set.BijOn ofTerm {t | t.vars = [] ∧ t.ExprFree} {a | a.Canonical ∧ a.Known} ∧
      ∀ t u : Term Var, t.vars = [] → t.ExprFree → u.vars = [] → u.ExprFree →
        (ofTerm t = ofTerm u ↔ t = u) := by
  -- Terms without variables and expressions are values, and there the answer is injective.
  have injective : Set.InjOn ofTerm {t : Term Var | t.vars = [] ∧ t.ExprFree} := by
    rintro t ground u groundToo same
    obtain ⟨v, rfl⟩ := Value.exists_term_eq_iff.2 ground
    obtain ⟨w, rfl⟩ := Value.exists_term_eq_iff.2 groundToo
    rw [Value.answer_injective same]
  refine ⟨ofTerm_pair_eq_split, canonical_ofTerm, ⟨?_, injective, ?_⟩,
    fun t u closed plain closedToo plainToo => ?_⟩
  · -- Answers for such terms are canonical and known.
    rintro t ground
    obtain ⟨v, rfl⟩ := Value.exists_term_eq_iff.2 ground
    exact ⟨canonical_ofTerm v.term, v.known_answer⟩
  · rintro a ⟨canonical, known⟩
    -- Conversely, a canonical and known answer comes from a value, whose term is of this kind.
    obtain ⟨v, rfl⟩ := Value.exists_answer_eq a canonical known
    exact ⟨v.term, Value.exists_term_eq_iff.1 ⟨v, rfl⟩, rfl⟩
  · exact injective.eq_iff ⟨closed, plain⟩ ⟨closedToo, plainToo⟩

/-- A pair of two numbers and the list of them have different answers. -/
theorem ofTerm_canonical_bijOn_dotted :
    let pair : Term Var := .pair (.int 1) (.int 2)
    let list : Term Var := .list [.int 1, .int 2]
    (pair.vars = [] ∧ pair.ExprFree) ∧ (list.vars = [] ∧ list.ExprFree) ∧ ofTerm pair ≠ ofTerm list := by
  intro pair list
  have ground : pair.vars = [] ∧ pair.ExprFree := ⟨rfl, trivial, trivial⟩
  have groundToo : list.vars = [] ∧ list.ExprFree := ⟨rfl, trivial, trivial, trivial⟩
  obtain ⟨_, _, _, iff⟩ := ofTerm_canonical_bijOn
  refine ⟨ground, groundToo, fun same => ?_⟩
  -- Equal answers would come from equal terms, and these terms differ.
  exact absurd ((iff pair list ground.1 ground.2 groundToo.1 groundToo.2).1 same) (by decide)

end Answer

end Relational
