import Relational.Proofs.State.Stability
import Relational.Proofs.State.Symmetry
import Relational.Proofs.Stream.Ending

/-! Solving for one unknown: a nested expression is made equal to an atom in every way there is. -/

namespace Relational

namespace Term

variable {ν : Type} {x : Var} {a t l r : Term Var} {op : Operator} {f : Var → Term Var}

/-- The terms at the bottom of nested expressions; a term that is no expression is its own only leaf. -/
def leaves : Term ν → List (Term ν)
  | .expr l _ r => l.leaves ++ r.leaves
  | t => [t]

/-- The given term for one variable, and every other variable for itself. -/
def only (x : Var) (a : Term Var) (y : Var) : Term Var :=
  if y = x then a else .var y

/-- A term with another term in place of one variable. -/
def replace (t : Term Var) (x : Var) (a : Term Var) : Term Var :=
  t.instantiate (only x a)

/-- An expression of resolved operands has the value of the expression, or none if it has none. -/
theorem resolve_evaluated (l r : Term Var) (op : Operator) :
    (evaluated l op r).resolve f = evaluated (l.resolve f) op (r.resolve f) := by
  rw [evaluated]
  cases value : op.evaluate l r with
  | error e => rfl
  | ok result =>
    -- Operands that have a value are atoms, which stay as they are.
    obtain ⟨left, right, atom⟩ := (Operator.evaluate_eq_ok_iff.1 value).isAtom
    rw [resolve_of_isAtom left, resolve_of_isAtom right, evaluated, value]
    exact resolve_of_isAtom atom

/-- An expression is resolved to an atom exactly if the operator computes it. -/
theorem evaluated_eq_atom_iff {result : Term Var} (atom : result.isAtom = true) :
    evaluated l op r = result ↔ op.Computes l r result := by
  rw [← Operator.evaluate_eq_ok_iff, evaluated]
  cases value : op.evaluate l r with
  | ok other => simp
  | error e =>
    constructor
    · -- An expression is no atom.
      intro same
      rw [← same] at atom
      cases atom
    · intro computed
      cases computed

/-- An operand without variables, as far evaluated as it can be. -/
structure Closed (t : Term Var) : Prop where
  novars : t.vars = []
  reduced : t.Reduced
  operand : t.isAtom = true ∨ t.isExpr = true

/-- An expression of closed operands is resolved to a closed operand. -/
theorem Closed.evaluated (left : l.Closed) (right : r.Closed) (op : Operator) :
    (evaluated l op r).Closed := by
  rw [Term.evaluated]
  cases value : op.evaluate l r with
  | ok result =>
    -- A value is an atom, and has nothing left to be resolved.
    have atom := (Operator.evaluate_eq_ok_iff.1 value).isAtom.2.2
    exact ⟨vars_of_isAtom atom, reduced_of_isAtom atom, .inl atom⟩
  | error e =>
    refine ⟨?_, reduced_expr_iff.2 ⟨fun result computed => ?_, left.reduced, right.reduced⟩, .inr rfl⟩
    · -- Without a value the expression stays, and has no more variables than its operands.
      rw [vars, left.novars, right.novars, List.append_nil]
    · rw [value] at computed
      cases computed

/-- A closed operand stays as it is whatever is put in for variables. -/
theorem Closed.resolve_eq (closed : t.Closed) : t.resolve f = t := by
  -- There is nothing to put in, and no expression that would get a value.
  refine closed.reduced.resolve_eq fun x occurs => ?_
  rw [closed.novars] at occurs
  cases occurs

/-- A resolved expression whose only variable occurs once, all other operands being closed. -/
inductive OneUnknown (x : Var) : Term Var → Prop where
  | unknown : OneUnknown x (.var x)
  | left {l r : Term Var} {op : Operator} (inside : OneUnknown x l) (closed : r.Closed) :
      OneUnknown x (.expr l op r)
  | right {l r : Term Var} {op : Operator} (closed : l.Closed) (inside : OneUnknown x r) :
      OneUnknown x (.expr l op r)

namespace OneUnknown

/-- What is unknown is no atom. -/
theorem isAtom_eq (one : OneUnknown x t) : t.isAtom = false := by
  cases one <;> rfl

/-- What is unknown counts as unknown when an expression is solved. -/
theorem isUnknown_eq (one : OneUnknown x t) : State.isUnknown t = true := by
  cases one <;> rfl

/-- No variable but the unknown occurs. -/
theorem eq_of_mem_vars (one : OneUnknown x t) {y : Var} (occurs : y ∈ t.vars) : y = x := by
  induction one with
  -- By induction on the way to the unknown; beside this way everything is closed.
  | unknown => exact List.mem_singleton.1 occurs
  | left _ closed ih =>
    rw [vars, closed.novars, List.append_nil] at occurs
    exact ih occurs
  | right closed _ ih =>
    rw [vars, closed.novars, List.nil_append] at occurs
    exact ih occurs

/-- An operator computes nothing from an unknown operand. -/
theorem not_computes {result : Term Var} (one : OneUnknown x t) (side : l = t ∨ r = t) :
    ¬ op.Computes l r result := by
  intro computes
  -- Values are computed from atoms, and neither a variable nor an expression is one.
  obtain ⟨left, right, _⟩ := computes.isAtom
  have unknown := one.isAtom_eq
  rcases side with rfl | rfl
  · simp [unknown] at left
  · simp [unknown] at right

/-- With one operand unknown an expression stays an expression. -/
theorem evaluated_eq (one : OneUnknown x t) (side : l = t ∨ r = t) :
    evaluated l op r = .expr l op r := by
  rw [evaluated]
  -- A value would have been computed from the unknown.
  cases value : op.evaluate l r with
  | error e => rfl
  | ok result => exact absurd (Operator.evaluate_eq_ok_iff.1 value) (one.not_computes side)

/-- No expression over the unknown has a value. -/
theorem reduced (one : OneUnknown x t) : t.Reduced := by
  -- On the way to the unknown no expression has a value, and beside it all are reduced.
  have stuck : ∀ {l r inside : Term Var} {op : Operator}, OneUnknown x inside →
      l = inside ∨ r = inside → ∀ value, op.evaluate l r ≠ .ok value :=
    fun inside side value computed =>
      inside.not_computes side (Operator.evaluate_eq_ok_iff.1 computed)
  induction one with
  | unknown => exact reduced_of_leaf rfl rfl
  | left inside closed ih => exact reduced_expr_iff.2 ⟨stuck inside (.inl rfl), ih, closed.reduced⟩
  | right closed inside ih => exact reduced_expr_iff.2 ⟨stuck inside (.inr rfl), closed.reduced, ih⟩

end OneUnknown

end Term

/-- The unknown operand of an expression, and what its operator answers when asked for it. -/
inductive Operator.Asks (op : Operator) (l r result : Term Var) :
    Term Var → Except EvalError (LazyList (Term Var)) → Prop where
  | left (unknown : State.isUnknown l = true) (known : State.isUnknown r = false) :
      Asks op l r result l (op.solveLhs r result)
  | right (known : State.isUnknown l = false) (unknown : State.isUnknown r = true) :
      Asks op l r result r (op.solveRhs l result)

/-- Mapping a lazy list depends only on the images of its items. -/
theorem LazyList.flatMap_congr {σ α β : Type} {g h : α → Stream σ β} {items : LazyList α}
    (same : ∀ a ∈ items.toList, g a = h a) : items.flatMap g = items.flatMap h := by
  induction items with
  -- By induction on the lazy list; what is delayed has the same items.
  | nil => rfl
  | cons a rest ih =>
    rw [flatMap, flatMap, same a List.mem_cons_self,
      ih fun b member => same b (List.mem_cons_of_mem a member)]
  | delay rest ih =>
    rw [flatMap, flatMap]
    simp only [ih () same]

/-- The items of a mapped lazy list are those of all images together. -/
theorem LazyList.members_flatMap {α β : Type} (g : α → Stream Empty β) (items : LazyList α) :
    (items.flatMap g).members.Perm (items.toList.flatMap fun a => (g a).members) := by
  induction items with
  | nil => exact .nil
  -- Merging streams keeps all items of both, in some order.
  | cons a rest ih => exact (Stream.members_append _ _).trans (ih.append_left _)
  | delay rest ih => exact ih ()

namespace State

open Relational.Stream (EndsWith noJobs)

variable {s s' : State} {x : Var} {t result : Term Var} {depth : Nat}

/--
An operator is asked for an operand while a term is made equal to a result, and answers something.

The first to be asked is the operator of the resolved term, and then those of its unknown operand, once
for each candidate.
-/
inductive Consults (s : State) :
    (t result : Term Var) → Except EvalError (LazyList (Term Var)) → Prop where
  | here {t result l r operand : Term Var} {op : Operator}
      {answer : Except EvalError (LazyList (Term Var))} (resolved : s.walkStar t = .expr l op r)
      (atom : result.isAtom = true) (asks : op.Asks l r result operand answer) :
      Consults s t result answer
  | deeper {t result l r operand candidate : Term Var} {op : Operator}
      {candidates : LazyList (Term Var)} {answer : Except EvalError (LazyList (Term Var))}
      (resolved : s.walkStar t = .expr l op r) (atom : result.isAtom = true)
      (asks : op.Asks l r result operand (.ok candidates)) (listed : candidate ∈ candidates.toList)
      (later : Consults s operand candidate answer) : Consults s t result answer

/-- An expression with one unknown operand is solved by trying what its operator answers. -/
theorem solve_eq {unify : Unifier} {l r operand : Term Var} {op : Operator}
    {answer : Except EvalError (LazyList (Term Var))} (atom : result.isAtom = true)
    (asks : op.Asks l r result operand answer) :
    solve unify s l op r result = tryCandidates unify s operand answer := by
  cases asks with
  -- The operand that counts as unknown decides which of the two inverses is asked.
  | left unknown known => simp [solve, atom, unknown, known]
  | right known unknown => simp [solve, atom, unknown, known]

/-- Two unknown operands determine neither. -/
theorem solve_eq_empty {unify : Unifier} {l r : Term Var} {op : Operator}
    (left : isUnknown l = true) (right : isUnknown r = true) :
    solve unify s l op r result = .empty := by
  -- Neither operand can be solved for without the other one.
  simp [solve, left, right]

/-- Binding a variable to different terms gives different states. -/
theorem bind_injective {a b : Term Var} (same : s.bind x a = s.bind x b) : a = b := by
  -- The term can be read off the state again, as the binding of the variable.
  have found := congrArg (fun state : State => state.bindings.get? x) same
  simpa [bind, Substitution.get?_extend] using found

/-- A stream has one state for each atom with a property, in which a variable is bound to that atom. -/
structure Enumerates (s : State) (x : Var) (property : Term Var → Prop)
    (found : Stream Empty State) : Prop where
  nodup : found.members.Nodup
  mem_iff : ∀ s', s' ∈ found.members ↔ ∃ a, a.isAtom = true ∧ property a ∧ s' = s.bind x a

/-- Nothing is enumerated for a property that no atom has. -/
theorem enumerates_empty {property : Term Var → Prop} (none : ∀ a, ¬ property a) :
    s.Enumerates x property .empty where
  nodup := List.nodup_nil
  mem_iff := by
    intro s'
    refine ⟨nofun, ?_⟩
    -- A state that would have to be found comes with an atom of the property.
    rintro ⟨a, _, holds, _⟩
    exact absurd holds (none a)

/--
Trying all candidates for an operand enumerates what makes the operand a solution.

Different candidates are met for different values of the unknown, so nothing comes twice.
-/
theorem enumerates_tryCandidates {unify : Unifier} {operand : Term Var} {value : Term Var → Term Var}
    {solution : Term Var → Prop} {answer : Except EvalError (LazyList (Term Var))}
    (solves : Solves solution answer)
    (decided : ∀ e, answer = .error e → e.givesUp = false)
    (each : ∀ candidates, answer = .ok candidates → ∀ candidate ∈ candidates.toList,
      s.Enumerates x (fun a => value a = candidate) (unify s operand candidate)) :
    s.Enumerates x (fun a => solution (value a)) (tryCandidates unify s operand answer) := by
  cases answer with
  | error e =>
    -- An operator that does not give up is right that there is no operand.
    exact enumerates_empty fun a => solves (decided e rfl) (value a)
  | ok candidates =>
    obtain ⟨distinct, mem_iff⟩ := solves
    have each := each candidates rfl
    have same := LazyList.members_flatMap (fun candidate => unify s operand candidate) candidates
    constructor
    · refine same.nodup_iff.2 (List.nodup_flatMap.2 ⟨fun c listed => (each c listed).nodup, ?_⟩)
      refine distinct.imp_of_mem fun {c d} listed listed' different s' first second => ?_
      -- A state found for two candidates binds the unknown to one value, which fits only one of them.
      obtain ⟨a, _, fits, rfl⟩ := ((each c listed).mem_iff s').1 first
      obtain ⟨b, _, fits', equal⟩ := ((each d listed').mem_iff _).1 second
      rw [bind_injective equal, fits'] at fits
      exact different fits.symm
    · -- The candidates are all the values that the operand may have.
      intro s'
      rw [tryCandidates, same.mem_iff, List.mem_flatMap]
      constructor
      · rintro ⟨c, listed, found⟩
        obtain ⟨a, atom, fits, equal⟩ := ((each c listed).mem_iff s').1 found
        exact ⟨a, atom, fits ▸ (mem_iff c).1 listed, equal⟩
      · rintro ⟨a, atom, fits, equal⟩
        have listed := (mem_iff (value a)).2 fits
        exact ⟨value a, listed, ((each _ listed).mem_iff s').2 ⟨a, atom, rfl, equal⟩⟩

/-- An atom is no variable. -/
theorem ne_var_of_isAtom (atom : t.isAtom = true) (y : Var) : t ≠ .var y := by
  -- Variables are not atoms.
  rintro rfl
  cases atom

/-- An atom is a known operand. -/
theorem isUnknown_of_isAtom (atom : t.isAtom = true) : isUnknown t = false := by
  cases t with
  -- Only variables and expressions count as unknown.
  | var y => cases atom
  | expr l op r => cases atom
  | _ => rfl

/-- An expression without value is solved, whichever of expression and result comes first. -/
theorem unifyTurned_expr {l r : Term Var} {op : Operator} (expression : t.isExpr = true)
    (resolved : s.walkStar t = .expr l op r) (atom : result.isAtom = true) (turned : Bool) :
    unifyTurned turned (depth + 1) s t result = solve (unifyWithin depth) s l op r result := by
  have known : ∀ y, t ≠ .var y := by
    rintro y rfl
    cases expression
  -- Walking changes neither side, and the result stands for itself.
  have left : s.walk t = t := Substitution.walk_of_known _ known
  have right : s.walk result = result := Substitution.walk_of_known _ (ne_var_of_isAtom atom)
  have value : s.walkStar result = result := Substitution.walkStar_of_isAtom _ atom
  have plain : result.isExpr = false := by
    cases result with
    | expr l op r => cases atom
    | _ => rfl
  -- Expression and result are both known, and one of them is an expression, so they are resolved.
  have resolves : s.Resolves t result := by
    refine ⟨?_, ?_, ?_⟩
    · rwa [left]
    · rw [right]
      exact ne_var_of_isAtom atom
    · rw [left]
      exact .inl expression
  have step : unifyTurned turned (depth + 1) s t result = _ :=
    unifyTurned_solve turned resolves (by rw [left, resolved]) (by rw [right, value, plain])
  rw [step, right, value]

/-- An expression over one unknown is resolved to itself. -/
theorem walkStar_oneUnknown (free : s.bindings.get? x = none) (one : t.OneUnknown x) :
    s.walkStar t = t :=
  -- Its one variable is free, and its expressions have no values.
  Substitution.Resolved.walkStar_eq ⟨fun _ occurs => one.eq_of_mem_vars occurs ▸ free, one.reduced⟩

/-- The values of the unknown that give a term a result are enumerated, at every sufficient depth. -/
def Solved (s : State) (x : Var) (t result : Term Var) : Prop :=
  ∃ found, s.Enumerates x (fun a => t.resolve (.only x a) = result) found ∧
    ∀ turned depth, t.height < depth → unifyTurned turned depth s t result = found

/-- An expression is solved by its unknown operand, once that is solved for every candidate. -/
theorem solved_of_asks {l r operand : Term Var} {op : Operator} {solution : Term Var → Prop}
    {answer : Except EvalError (LazyList (Term Var))}
    (resolved : s.walkStar (.expr l op r) = .expr l op r) (atom : result.isAtom = true)
    (asks : op.Asks l r result operand answer) (solves : Solves solution answer)
    (decided : ∀ e, answer = .error e → e.givesUp = false)
    (meaning : ∀ a, (Term.expr l op r).resolve (.only x a) = result ↔
      solution (operand.resolve (.only x a)))
    (each : ∀ candidates, answer = .ok candidates → ∀ candidate ∈ candidates.toList,
      s.Solved x operand candidate) : s.Solved x (.expr l op r) result := by
  -- The operand is a part, so it needs less depth than the expression.
  have lower : operand.height < (Term.expr l op r).height := by
    cases asks <;> simp only [Term.height] <;> omega
  refine ⟨tryCandidates (unifyWithin (operand.height + 1)) s operand answer, ?_, ?_⟩
  · have all : s.Enumerates x (fun a => solution (operand.resolve (.only x a)))
        (tryCandidates (unifyWithin (operand.height + 1)) s operand answer) := by
      refine enumerates_tryCandidates solves decided fun candidates listed candidate member => ?_
      obtain ⟨found, enumerates, unified⟩ := each candidates listed candidate member
      have here : unifyWithin (operand.height + 1) s operand candidate = found :=
        unified false _ (Nat.lt_succ_self _)
      rwa [here]
    simpa only [meaning] using all
  · -- Either order and every sufficient depth solve the expression by the same candidates.
    intro turned depth deep
    obtain ⟨less, rfl⟩ : ∃ less, depth = less + 1 := ⟨depth - 1, by omega⟩
    rw [unifyTurned_expr rfl resolved atom, solve_eq atom asks]
    -- More depth than the operand needs makes no difference to any candidate.
    cases answer with
    | error e => rfl
    | ok candidates =>
      refine LazyList.flatMap_congr fun candidate member => ?_
      obtain ⟨found, _, unified⟩ := each candidates rfl candidate member
      exact (unified false less (by omega)).trans (unified false _ (Nat.lt_succ_self _)).symm

/--
An expression over one unknown operand and a closed one is solved, if the unknown operand can be.

A closed operand without value counts as unknown, and rightly leaves no solution.
-/
theorem solved_of_operand {l r operand : Term Var} {op : Operator} {solution : Term Var → Prop}
    {answer : Except EvalError (LazyList (Term Var))} (closed : Term Var)
    (resolved : s.walkStar (.expr l op r) = .expr l op r) (atom : result.isAtom = true)
    (asks : closed.isAtom = true → op.Asks l r result operand answer)
    (stuck : closed.isAtom = true ∨ isUnknown l = true ∧ isUnknown r = true)
    (solves : Solves solution answer)
    (atoms : ∀ c, solution c → c.isAtom = true ∧ closed.isAtom = true)
    (meaning : ∀ a, (Term.expr l op r).resolve (.only x a) = result ↔
      solution (operand.resolve (.only x a)))
    (decided : ∀ e, s.Consults (.expr l op r) result (.error e) → e.givesUp = false)
    (each : ∀ candidate, candidate.isAtom = true →
      (∀ e, s.Consults operand candidate (.error e) → e.givesUp = false) →
      s.Solved x operand candidate) : s.Solved x (.expr l op r) result := by
  by_cases known : closed.isAtom = true
  · -- With a known operand the operator is asked, for the answer and then for each of its candidates.
    refine solved_of_asks resolved atom (asks known) solves (fun e answered => ?_) meaning ?_
    · exact decided e (.here resolved atom (answered ▸ asks known))
    · intro candidates answered candidate listed
      have listing := asks known
      rw [answered] at solves listing
      refine each candidate (atoms _ ((Lists.mem_iff solves candidate).1 listed)).1 fun e later => ?_
      exact decided e (.deeper resolved atom listing listed later)
  · -- Nothing is tried with two unknown operands, and nothing can be computed from one without value.
    obtain ⟨left, right⟩ := stuck.resolve_left known
    refine ⟨.empty, enumerates_empty fun a equal => ?_, fun turned depth deep => ?_⟩
    · exact known (atoms _ ((meaning a).1 equal)).2
    · obtain ⟨less, rfl⟩ : ∃ less, depth = less + 1 := ⟨depth - 1, by omega⟩
      rw [unifyTurned_expr rfl resolved atom, solve_eq_empty left right]

/--
A resolved expression over one unknown is solved exactly, unless an operator gives up on the way.

The induction is on the expression: each operator turns the result into candidates for its unknown
operand, down to the unknown itself.
-/
theorem solved_of_oneUnknown (free : s.bindings.get? x = none) (one : t.OneUnknown x)
    (atom : result.isAtom = true)
    (decided : ∀ e, s.Consults t result (.error e) → e.givesUp = false) :
    s.Solved x t result := by
  -- A closed operand is an atom or counts as unknown.
  have operand : ∀ {t : Term Var}, t.Closed → t.isAtom = true ∨ isUnknown t = true :=
    fun closed => closed.operand.imp_right fun expression => by simp [isUnknown, expression]
  induction one generalizing result with
  | unknown =>
    refine ⟨.singleton (s.bind x result), ⟨List.nodup_singleton _, fun s' => ?_⟩, ?_⟩
    · -- The unknown itself has the result as its only value.
      simp only [Stream.singleton, Stream.members, List.mem_singleton, Term.resolve, Term.only,
        if_true]
      constructor
      · rintro rfl
        exact ⟨result, atom, rfl, rfl⟩
      · rintro ⟨a, _, rfl, rfl⟩
        rfl
    · intro turned depth deep
      obtain ⟨less, rfl⟩ : ∃ less, depth = less + 1 := ⟨depth - 1, by omega⟩
      have known := ne_var_of_isAtom atom
      have right : s.walk result = result := Substitution.walk_of_known _ known
      rw [unifyTurned_knownRight turned (Substitution.walk_of_free free) free (by rwa [right]),
        right]
  | @left l r op inside closed ih =>
    -- The result becomes candidates for the left operand, and these are solved by induction.
    have one : Term.OneUnknown x (.expr l op r) := .left inside closed
    refine solved_of_operand r (walkStar_oneUnknown free one) atom (fun known => ?_) ?_
      (op.solveLhs_solves r result) (fun c computes => ?_) (fun a => ?_) decided fun _ => ih
    · exact .left inside.isUnknown_eq (isUnknown_of_isAtom known)
    · exact (operand closed).imp_right fun unknown => ⟨inside.isUnknown_eq, unknown⟩
    · exact ⟨computes.isAtom.1, computes.isAtom.2.1⟩
    · rw [Term.resolve, closed.resolve_eq, Term.evaluated_eq_atom_iff atom]
  -- The same with the operands exchanged.
  | @right l r op closed inside ih =>
    have one : Term.OneUnknown x (.expr l op r) := .right closed inside
    refine solved_of_operand l (walkStar_oneUnknown free one) atom (fun known => ?_) ?_
      (op.solveRhs_solves l result) (fun c computes => ?_) (fun a => ?_) decided fun _ => ih
    · exact .right (isUnknown_of_isAtom known) inside.isUnknown_eq
    · exact (operand closed).imp_right fun unknown => ⟨unknown, inside.isUnknown_eq⟩
    · exact ⟨computes.isAtom.2.1, computes.isAtom.1⟩
    · rw [Term.resolve, closed.resolve_eq, Term.evaluated_eq_atom_iff atom]

/-- A leaf whose value is known: an atom, or a variable that stands for one. -/
def Knows (s : State) (leaf : Term Var) : Prop :=
  leaf.isAtom = true ∨ leaf.isVar = true ∧ (s.walkStar leaf).isAtom = true

instance (s : State) (leaf : Term Var) : Decidable (s.Knows leaf) :=
  inferInstanceAs (Decidable (_ ∨ _))

/-- A known leaf stands for an atom. -/
theorem Knows.isAtom (known : s.Knows t) : (s.walkStar t).isAtom = true := by
  rcases known with atom | ⟨_, atom⟩
  · -- An atom stands for itself, and any other known leaf is bound to one.
    have same : s.walkStar t = t := Substitution.walkStar_of_isAtom _ atom
    rwa [same]
  · exact atom

/-- An expression over known leaves is resolved to a closed operand. -/
theorem closed_walkStar (known : ∀ leaf ∈ t.leaves, s.Knows leaf) : (s.walkStar t).Closed := by
  have ofAtom : ∀ {t : Term Var}, (s.walkStar t).isAtom = true → (s.walkStar t).Closed :=
    fun atom => ⟨Term.vars_of_isAtom atom, Term.reduced_of_isAtom atom, .inl atom⟩
  induction t with
  -- By induction on the expression, from the leaves up.
  | expr l op r left right =>
    rw [walkStar, Substitution.walkStar_expr]
    exact (left fun leaf member => known leaf (List.mem_append_left _ member)).evaluated
      (right fun leaf member => known leaf (List.mem_append_right _ member)) op
  | _ => exact ofAtom (known _ (List.mem_singleton.2 rfl)).isAtom

/-- An expression with one free leaf and all others known is resolved to one over that leaf. -/
theorem oneUnknown_walkStar (free : s.bindings.get? x = none)
    (once : t.leaves.count (.var x) = 1)
    (known : ∀ leaf ∈ t.leaves, leaf ≠ .var x → s.Knows leaf) :
    (s.walkStar t).OneUnknown x := by
  -- A part in which the unknown does not occur has only known leaves.
  have others : ∀ {part : Term Var}, (∀ leaf ∈ part.leaves, leaf ≠ .var x → s.Knows leaf) →
      part.leaves.count (.var x) = 0 → (s.walkStar part).Closed := by
    intro part known absent
    refine closed_walkStar fun leaf member => known leaf member ?_
    rintro rfl
    exact List.count_eq_zero.1 absent member
  induction t with
  | expr l op r left right =>
    have knownLeft := fun leaf member => known leaf (List.mem_append_left _ member)
    have knownRight := fun leaf member => known leaf (List.mem_append_right _ member)
    rw [Term.leaves, List.count_append] at once
    rw [walkStar, Substitution.walkStar_expr]
    -- The unknown is on one side only, so the other side is closed.
    by_cases inLeft : l.leaves.count (.var x) = 1
    · have inside : (s.walkStar l).OneUnknown x := left inLeft knownLeft
      have closed : (s.walkStar r).Closed := others knownRight (by omega)
      rw [← walkStar, ← walkStar, inside.evaluated_eq (.inl rfl)]
      exact .left inside closed
    · have inside : (s.walkStar r).OneUnknown x := right (by omega) knownRight
      have closed : (s.walkStar l).Closed := others knownLeft (by omega)
      rw [← walkStar, ← walkStar, inside.evaluated_eq (.inr rfl)]
      exact .right closed inside
  | var y =>
    -- The one leaf is the unknown itself.
    have same : Term.var y = .var x := by
      by_contra different
      simp [Term.leaves, different] at once
    rw [same, walkStar, Substitution.walkStar_of_free free]
    exact .unknown
  | _ => simp [Term.leaves] at once

/-- Replacing the unknown by an atom before or after an expression is resolved gives the same. -/
theorem walkStar_replace {a : Term Var} (free : s.bindings.get? x = none) (atom : a.isAtom = true)
    (known : ∀ leaf ∈ t.leaves, leaf ≠ .var x → s.Knows leaf) :
    s.walkStar (t.replace x a) = (s.walkStar t).resolve (.only x a) := by
  induction t with
  | expr l op r left right =>
    have lhs := left fun leaf member => known leaf (List.mem_append_left _ member)
    have rhs := right fun leaf member => known leaf (List.mem_append_right _ member)
    simp only [walkStar, Term.replace] at lhs rhs ⊢
    rw [Term.instantiate, Substitution.walkStar_expr, lhs, rhs, Substitution.walkStar_expr,
      Term.resolve_evaluated]
  | var y =>
    by_cases same : y = x
    · -- The unknown is replaced, and the atom in its place stands for itself.
      subst same
      rw [walkStar, walkStar, Substitution.walkStar_of_free free, Term.replace, Term.instantiate,
        Term.resolve, Term.only, if_pos rfl, Substitution.walkStar_of_isAtom _ atom]
    · -- Any other variable stands for an atom, which has nothing to replace in it.
      have value := (known (.var y) (List.mem_singleton.2 rfl) (by simp [same])).isAtom
      rw [Term.replace, Term.instantiate, Term.only, if_neg same, Term.resolve_of_isAtom value]
  | pair c d =>
    -- A pair would be a leaf that is not known.
    have leaf := known (.pair c d) (List.mem_singleton.2 rfl) (by simp)
    rcases leaf with impossible | ⟨impossible, _⟩ <;> cases impossible
  | _ =>
    have value := (known _ (List.mem_singleton.2 rfl) (by simp)).isAtom
    exact (Term.resolve_of_isAtom value).symm

/-- What is enumerated is found in some order, with the unknown bound to each value once. -/
theorem Enumerates.exists_values {property : Term Var → Prop} {found : Stream Empty State}
    (enumerates : s.Enumerates x property found) :
    ∃ values : List (Term Var), values.Nodup ∧
      (∀ a, a ∈ values ↔ a.isAtom = true ∧ property a) ∧
      ∃ n, EndsWith noJobs (values.map (s.bind x)) n found := by
  -- The states are listed in the order of the stream, and they are its members.
  obtain ⟨states, ends, same⟩ := Stream.exists_endsWith_members found
  have member : ∀ s', s' ∈ states ↔ ∃ a, a.isAtom = true ∧ property a ∧ s' = s.bind x a :=
    fun s' => same.mem_iff.trans (enumerates.mem_iff s')
  -- Each state found has the value it was found for as the binding of the unknown.
  let value (s' : State) : Term Var := (s'.bindings.get? x).getD .unit
  have bound : ∀ a, value (s.bind x a) = a := by
    intro a
    simp [value, bind, Substitution.get?_extend]
  have rebound : (states.map value).map (s.bind x) = states := by
    rw [List.map_map]
    refine (List.map_congr_left fun s' listed => ?_).trans (List.map_id states)
    obtain ⟨a, _, _, rfl⟩ := (member s').1 listed
    simp [bound]
  refine ⟨states.map value, ?_, fun a => ?_, _, rebound.symm ▸ ends⟩
  · -- States for different values are different, so the values are, too.
    refine List.Nodup.of_map (s.bind x) ?_
    rw [rebound]
    exact same.nodup_iff.2 enumerates.nodup
  · rw [List.mem_map]
    constructor
    · rintro ⟨s', listed, rfl⟩
      obtain ⟨b, atom, holds, rfl⟩ := (member s').1 listed
      rw [bound]
      exact ⟨atom, holds⟩
    · rintro ⟨atom, holds⟩
      exact ⟨s.bind x a, (member _).2 ⟨a, atom, holds, rfl⟩, bound a⟩

/-- What is asked while a resolved term is solved is asked while the term itself is. -/
theorem Consults.of_walkStar {answer : Except EvalError (LazyList (Term Var))}
    (stays : s.walkStar (s.walkStar t) = s.walkStar t)
    (consults : s.Consults (s.walkStar t) result answer) : s.Consults t result answer := by
  cases consults with
  -- The question is asked about what the term is resolved to, and that is the same for both.
  | here resolved atom asks => exact .here (stays.symm.trans resolved) atom asks
  | deeper resolved atom asks listed later =>
    exact .deeper (stays.symm.trans resolved) atom asks listed later

/-- A term over one unknown is unified as what it stands for is, from either side. -/
theorem unifyTurned_walkStar (turned : Bool) (free : s.bindings.get? x = none)
    (once : t.leaves.count (.var x) = 1) (one : (s.walkStar t).OneUnknown x)
    (atom : result.isAtom = true) :
    unifyTurned turned (depth + 1) s t result =
      unifyTurned turned (depth + 1) s (s.walkStar t) result := by
  cases t with
  | expr l op r =>
    have stuck : (s.walkStar (.expr l op r)).isExpr = true := by
      -- Otherwise it would have a value, with the unknown in it.
      by_contra valued
      have value : (s.walkStar (.expr l op r)).isAtom = true :=
        Substitution.isAtom_walkStar_of_isExpr rfl (Bool.eq_false_of_not_eq_true valued)
      rw [one.isAtom_eq] at value
      cases value
    obtain ⟨l', op', r', stands⟩ := Term.exists_expr_of_isExpr stuck
    have stays := walkStar_oneUnknown free one
    rw [unifyTurned_expr rfl stands atom, unifyTurned_expr stuck (stays.trans stands) atom]
  -- A variable that is a leaf once is the unknown, which stands for itself.
  | var y =>
    have same : Term.var y = .var x := by
      by_contra different
      simp [Term.leaves, different] at once
    rw [same, walkStar, Substitution.walkStar_of_free free]
  | _ => simp [Term.leaves] at once

/--
Solving one unknown in a nested expression is exact.

One leaf of the expression is a free variable, and all others are known. Unless an operator gives up
while the expression is solved, the states found end, from either side, and bind that variable only: to
each atom once that gives the expression the wanted value. A greater depth finds nothing more.
-/
theorem unify_solves_exactly {s : State} {x : Var} {t result : Term Var}
    (free : s.bindings.get? x = none) (once : t.leaves.count (.var x) = 1)
    (known : ∀ leaf ∈ t.leaves, leaf ≠ .var x → s.Knows leaf) (atom : result.isAtom = true)
    (decided : ∀ e, s.Consults t result (.error e) → e.givesUp = false) :
    ∃ values : List (Term Var), values.Nodup ∧
      (∀ a, a ∈ values ↔ a.isAtom = true ∧ s.walkStar (t.replace x a) = result) ∧
      (∃ n, EndsWith noJobs (values.map (s.bind x)) n (s.unify t result)) ∧
      (∃ n, EndsWith noJobs (values.map (s.bind x)) n (s.unify result t)) ∧
      ∀ depth, s.depthBound t result ≤ depth →
        unifyWithin depth s t result = s.unify t result ∧
        unifyWithin depth s result t = s.unify result t := by
  -- The expression is solved as what it stands for, which is an expression over the one unknown.
  have one := oneUnknown_walkStar free once known
  obtain ⟨found, enumerates, reads⟩ := solved_of_oneUnknown free one atom fun e consults =>
    decided e (consults.of_walkStar (walkStar_oneUnknown free one))
  obtain ⟨values, distinct, mem_iff, n, ends⟩ := enumerates.exists_values
  -- The depth of the resolved expression is within the bound, and more of it makes no difference.
  have deep := height_le_depthBound s t result
  have reads : ∀ turned depth, s.depthBound t result ≤ depth →
      unifyTurned turned depth s t result = found := by
    intro turned depth enough
    obtain ⟨less, rfl⟩ : ∃ less, depth = less + 1 := ⟨depth - 1, by omega⟩
    rw [unifyTurned_walkStar turned free once one atom]
    exact reads turned _ (by omega)
  have forward : s.unify t result = found := reads false _ (Nat.le_refl _)
  have backward : s.unify result t = found := by
    rw [unify, depthBound_comm]
    exact reads true _ (Nat.le_refl _)
  refine ⟨values, distinct, fun a => ?_, ⟨n, forward ▸ ends⟩, ⟨n, backward ▸ ends⟩,
    fun depth enough => ?_⟩
  · -- The unknown replaced by a value stands for what the operators compute from it.
    rw [mem_iff]
    exact and_congr_right fun value => by rw [walkStar_replace free value known]
  · rw [forward, backward]
    exact ⟨reads false depth enough, reads true depth enough⟩

/-- With `y` for two, `x / y * 3` is nine for two values of `x`, which come one after the other. -/
theorem unify_solves_exactly_six_seven :
    ∃ values : List (Term Var), values.Nodup ∧
      (.int 6 ∈ values ∧ .int 7 ∈ values ∧ .int 8 ∉ values) ∧
      ∃ n, EndsWith noJobs (values.map (((State.mk .empty 2).bind ⟨1⟩ (.int 2)).bind ⟨0⟩)) n
        (((State.mk .empty 2).bind ⟨1⟩ (.int 2)).unify
          (.expr (.expr (.var ⟨0⟩) .div (.var ⟨1⟩)) .mul (.int 3)) (.int 9)) := by
  have product : ((State.mk .empty 2).bind ⟨1⟩ (.int 2)).walkStar
      (.expr (.expr (.var ⟨0⟩) .div (.var ⟨1⟩)) .mul (.int 3)) =
      .expr (.expr (.var ⟨0⟩) .div (.int 2)) .mul (.int 3) := by decide
  have quotient : ((State.mk .empty 2).bind ⟨1⟩ (.int 2)).walkStar
      (.expr (.var ⟨0⟩) .div (.int 2)) = .expr (.var ⟨0⟩) .div (.int 2) := by decide
  have decided : ∀ e, ((State.mk .empty 2).bind ⟨1⟩ (.int 2)).Consults
      (.expr (.expr (.var ⟨0⟩) .div (.var ⟨1⟩)) .mul (.int 3)) (.int 9) (.error e) →
      e.givesUp = false := by
    intro e consults
    cases consults with
    | here resolved atom asks =>
      -- The left operand is the unknown one, and its product with three can be nine.
      obtain ⟨rfl, rfl, rfl⟩ := Term.expr.inj (product.symm.trans resolved)
      cases asks with
      | right _ unknown => cases unknown
    | deeper resolved atom asks listed later =>
      obtain ⟨rfl, rfl, rfl⟩ := Term.expr.inj (product.symm.trans resolved)
      cases asks
      -- Three is the only candidate for the quotient.
      obtain rfl := List.mem_singleton.1 listed
      cases later with
      | here resolved atom asks =>
        obtain ⟨rfl, rfl, rfl⟩ := Term.expr.inj (quotient.symm.trans resolved)
        cases asks with
        | right _ unknown => cases unknown
      | deeper resolved atom asks listed later =>
        obtain ⟨rfl, rfl, rfl⟩ := Term.expr.inj (quotient.symm.trans resolved)
        cases asks
        -- Nothing is asked for a variable.
        cases later with
        | here resolved _ _ => cases resolved
        | deeper resolved _ _ _ _ => cases resolved
  obtain ⟨values, distinct, mem_iff, ends, _⟩ :=
    unify_solves_exactly (x := ⟨0⟩) (by decide) (by decide) (by decide) rfl decided
  refine ⟨values, distinct, ⟨?_, ?_, ?_⟩, ends⟩
  · exact (mem_iff _).2 (by decide)
  · exact (mem_iff _).2 (by decide)
  · exact fun listed => absurd ((mem_iff _).1 listed) (by decide)

end State

end Relational
