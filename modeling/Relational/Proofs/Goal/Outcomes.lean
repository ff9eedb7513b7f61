import Mathlib.Data.Multiset.Filter
import Relational.Proofs.Goal.Alternatives
import Relational.Proofs.Goal.Scope
import Relational.Proofs.State.Solutions
import Relational.Proofs.State.Symmetry

/-! Outcomes: the states a plain goal finds leave open what its alternatives do, each of them once. -/

namespace Relational

section Possible

variable {α β γ : Type} {sets : Multiset (Set α)}

open Classical in
/-- The conditions that can be met at all. -/
noncomputable def possible (sets : Multiset (Set α)) : Multiset (Set α) :=
  sets.filter Set.Nonempty

/-- If every condition can be met, none is left out. -/
theorem possible_eq_self (met : ∀ A ∈ sets, A.Nonempty) : possible sets = sets := by
  classical
  exact Multiset.filter_eq_self.2 met

/-- If no condition can be met, none is left. -/
theorem possible_eq_zero (unmet : ∀ A ∈ sets, ¬ A.Nonempty) : possible sets = 0 := by
  classical
  exact Multiset.filter_eq_nil.2 unmet

/-- What can be met is told before or after a change that does not matter to it. -/
theorem possible_map {f : Set α → Set β} (keeps : ∀ A, (f A).Nonempty ↔ A.Nonempty) :
    possible (sets.map f) = (possible sets).map f := by
  classical
  -- The change goes before the filter, and it keeps what the filter asks for.
  rw [possible, possible, Multiset.filter_map]
  simp only [Function.comp_def, keeps]

/-- What can be met in two collections is told for each of them. -/
theorem possible_add (sets others : Multiset (Set α)) :
    possible (sets + others) = possible sets + possible others := by
  classical
  exact Multiset.filter_add Set.Nonempty sets others

/-- What can be met among several collections is told for each of them. -/
theorem possible_bind (collections : Multiset γ) (f : γ → Multiset (Set α)) :
    possible (collections.bind f) = collections.bind fun c => possible (f c) := by
  classical
  exact Multiset.filter_bind collections f Set.Nonempty

/-- Conditions that cannot be met may be left out if nothing comes of them. -/
theorem bind_possible {f : Set α → Multiset β} (nothing : f ∅ = 0) (sets : Multiset (Set α)) :
    (possible sets).bind f = sets.bind f := by
  classical
  induction sets using Multiset.induction_on with
  -- By induction on the conditions; one that cannot be met is the empty set.
  | empty => rfl
  | cons A sets ih =>
    rw [possible, Multiset.filter_cons, Multiset.add_bind, Multiset.cons_bind, ← possible, ih]
    split
    · rw [Multiset.singleton_bind]
    · rename_i empty
      rw [Set.not_nonempty_iff_eq_empty.1 empty, nothing, Multiset.zero_bind]

end Possible

namespace Assignment

variable {θ : Assignment} {tracked n : Nat} {env : Env} {t : Term Name}

/-- The values of everything that a goal may mention, where only tracked variables have numbers. -/
def reading (θ : Assignment) (tracked : Nat) (env : Env) : Reading
  | .numbered x => if x.id < tracked then θ.value x else .unit
  | .bound name => θ.apply (env.term (.bound name))

/-- The assignments under which a goal is read as one of some readings. -/
def reads (tracked : Nat) (env : Env) (readings : Set Reading) : Set Assignment :=
  {θ | θ.reading tracked env ∈ readings}

/-- A plain term is read as the value of its instance. -/
theorem instantiate_reading (plain : t.Plain tracked) :
    t.instantiate (θ.reading tracked env) = θ.apply (t.instantiate env.term) := by
  obtain ⟨free, written⟩ := plain
  induction t with
  | var name =>
    cases name with
    | numbered x =>
      -- A tracked variable is read as its value, and a plain term has no other numbers in it.
      have within := written x (List.mem_singleton.2 rfl)
      rw [Term.instantiate, reading, if_pos within]
      rfl
    | bound name => rfl
  | pair a d first rest =>
    -- The components of a plain term are plain.
    have left := first free.1 fun x occurs => written x (List.mem_append_left _ occurs)
    have right := rest free.2 fun x occurs => written x (List.mem_append_right _ occurs)
    rw [Term.instantiate, left, right]
    rfl
  | expr l op r => exact free.elim
  | _ => rfl

/-- Under a binder, its names are read as the values of their terms. -/
theorem reading_extend (θ : Assignment) (tracked : Nat) (env : Env) (names : List String)
    (terms : List (Term Var)) :
    θ.reading tracked (env.extend names terms) =
      (θ.reading tracked env).extend names (terms.map θ.apply) := by
  funext name
  cases name with
  | numbered x => rfl
  | bound name =>
    -- The names are given values where they were given terms.
    rw [reading, Env.term_extend, Reading.extend, given_map]
    cases given names terms name <;> rfl

/-- Values for the variables from a number on, one after the other. -/
def assign (θ : Assignment) (start : Nat) (values : List (Term Empty))
    (free : ∀ value ∈ values, value.ExprFree) : Assignment where
  value x := if x.id < start then θ.value x else values[x.id - start]?.getD .unit
  exprFree x := by
    split
    · exact θ.exprFree x
    · cases found : values[x.id - start]? with
      | none => trivial
      | some value => exact free value (List.mem_of_getElem? found)

/-- Earlier variables keep their values. -/
theorem agreeBelow_assign {values : List (Term Empty)} {free : ∀ value ∈ values, value.ExprFree} :
    AgreeBelow n θ (θ.assign n values free) := by
  intro x earlier
  -- Only variables from the given number on are assigned.
  exact (if_pos earlier).symm

end Assignment

/-- Names stand for terms without expressions, of variables that are in use. -/
def Env.Plain (used : Nat) (env : Env) : Prop :=
  ∀ name, (env.term (.bound name)).ExprFree ∧ (env.term (.bound name)).Below used

namespace Env.Plain

variable {used more tracked : Nat} {env : Env} {t : Term Name}

/-- More variables in use do no harm. -/
theorem mono (named : env.Plain used) (grown : used ≤ more) : env.Plain more :=
  fun name => ⟨(named name).1, (named name).2.mono grown⟩

/-- Instances of plain terms have no expressions either. -/
theorem exprFree (named : env.Plain used) (plain : t.Plain tracked) :
    (t.instantiate env.term).ExprFree := by
  refine plain.1.instantiate fun name => ?_
  cases name with
  | numbered x => trivial
  -- The names stand for terms without expressions, and so do numbers.
  | bound name => exact (named name).1

/-- Instances of plain terms have no variables but those in use. -/
theorem below (named : env.Plain used) (counted : tracked ≤ used) (plain : t.Plain tracked) :
    (t.instantiate env.term).Below used := by
  intro x occurs
  -- Each variable comes from a name: a tracked one from a number, any other from a bound name.
  obtain ⟨name, member, there⟩ := Term.mem_vars_instantiate.1 occurs
  cases name with
  | numbered y =>
    obtain rfl := List.mem_singleton.1 there
    exact Nat.lt_of_lt_of_le (plain.2 x member) counted
  | bound name => exact (named name).2 x there

/-- Under a binder there are its fresh variables as well. -/
theorem fresh {s : State} (named : env.Plain s.nextVar) (names : List String) :
    (env.extend names (s.freshVars names.length).1).Plain (s.freshVars names.length).2.nextVar := by
  intro name
  rw [term_extend]
  cases found : given names (s.freshVars names.length).1 name with
  -- Names outside the binder stand for what they did, with more variables in use.
  | none => exact named.mono (Nat.le_add_right _ _) name
  | some t =>
    obtain ⟨i, within, rfl⟩ := List.mem_map.1 (mem_of_given found)
    refine ⟨trivial, Term.below_var_iff.2 ?_⟩
    exact Nat.add_lt_add_left (List.mem_range.1 within) s.nextVar

/-- How a goal is read is determined by the values of the variables in use. -/
theorem reading_eq {θ θ' : Assignment} (named : env.Plain used) (counted : tracked ≤ used)
    (agree : θ.AgreeBelow used θ') : θ.reading tracked env = θ'.reading tracked env := by
  funext name
  cases name with
  | numbered x =>
    rw [Assignment.reading, Assignment.reading]
    split
    · -- The tracked variables are in use, so the assignments agree on them.
      rename_i within
      exact agree x (Nat.lt_of_lt_of_le within counted)
    · rfl
  | bound name => exact agree.apply_eq (named name).2

/-- A condition on readings is one on the values of the variables in use. -/
theorem reads_of_agree (named : env.Plain used) (counted : tracked ≤ used) (readings : Set Reading)
    (θ θ' : Assignment) (agree : θ.AgreeBelow used θ')
    (holds : θ ∈ Assignment.reads tracked env readings) :
    θ' ∈ Assignment.reads tracked env readings := by
  show θ'.reading tracked env ∈ readings
  -- Both assignments read the goal in the same way.
  rw [← named.reading_eq counted agree]
  exact holds

end Env.Plain

namespace State

variable {s s' : State} {u v : Term Var} {tracked : Nat}

/-- A state that plain goals can lead to. -/
structure Plain (tracked : Nat) (s : State) : Prop where
  settled : s.bindings.Settled
  exprFree : s.bindings.ExprFree
  wellScoped : s.WellScoped
  counted : tracked ≤ s.nextVar

/-- Fresh variables keep a state plain. -/
theorem Plain.fresh (plain : s.Plain tracked) (count : Nat) :
    (s.freshVars count).2.Plain tracked where
  settled := plain.settled
  exprFree := plain.exprFree
  -- The counter has gone up, so everything is still below it.
  wellScoped := plain.wellScoped.mono (Nat.le_add_right _ _)
  counted := plain.counted.trans (Nat.le_add_right _ _)

/-- Unifying terms without expressions keeps a state plain. -/
theorem Plain.unifies (plain : s.Plain tracked) (unified : Unifies s u v s') (left : u.ExprFree)
    (right : v.ExprFree) (leftBelow : u.Below s.nextVar) (rightBelow : v.Below s.nextVar) :
    s'.Plain tracked where
  settled := unified.settled plain.settled
  exprFree := unified.exprFree plain.exprFree left right
  wellScoped := by
    -- No variable is allocated, and the given terms are in scope.
    rw [WellScoped, unified.nextVar_eq]
    exact unified.staysBelow plain.wellScoped leftBelow rightBelow
  counted := by
    rw [unified.nextVar_eq]
    exact plain.counted

end State

namespace Goal

open Assignment (forget reads)

variable {g : Goal} {s s' : State} {tracked used : Nat} {env : Env}

/-- A plain goal leads from plain states to plain states, and does not give variables back. -/
theorem Plain.found_plain (plain : g.Plain tracked) (start : s.Plain tracked)
    (named : env.Plain s.nextVar) (member : s' ∈ g.found env s) :
    s'.Plain tracked ∧ s.nextVar ≤ s'.nextVar := by
  induction g generalizing env s s' with
  -- By induction on the goal; only equations bind anything.
  | eq u v =>
    have unified := State.unifies_of_mem_unifyWithin member
    refine ⟨start.unifies unified (named.exprFree plain.1) (named.exprFree plain.2)
      (named.below start.counted plain.1) (named.below start.counted plain.2), ?_⟩
    rw [unified.nextVar_eq]
  | succeed =>
    obtain rfl := List.mem_singleton.1 member
    exact ⟨start, Nat.le_refl _⟩
  | fail => cases member
  | disj2 g h first second =>
    rcases List.mem_append.1 member with left | right
    · exact first plain.1 start named left
    · exact second plain.2 start named right
  | conj2 g h first second =>
    obtain ⟨middle, there, further⟩ := List.mem_flatMap.1 member
    -- The names are still plain in the states in between, which have more variables in use.
    obtain ⟨middlePlain, grown⟩ := first plain.1 start named there
    obtain ⟨endPlain, later⟩ := second plain.2 middlePlain (named.mono grown) further
    exact ⟨endPlain, grown.trans later⟩
  | snooze g ih => exact ih plain start named member
  | fresh names g ih =>
    obtain ⟨endPlain, later⟩ := ih plain (start.fresh names.length) (named.fresh names) member
    exact ⟨endPlain, (Nat.le_add_right _ _).trans later⟩
  | disunify | never | always | trace | call => exact plain.elim

/-- What each alternative of a goal leaves of some solutions, if it leaves any. -/
noncomputable def outcomes (g : Goal) (tracked : Nat) (env : Env) (used : Nat)
    (solutions : Set Assignment) : Multiset (Set Assignment) :=
  possible (g.alternatives.map fun A => forget used (solutions ∩ reads tracked env A))

/-- Nothing is left of no solutions. -/
theorem outcomes_empty (g : Goal) (tracked : Nat) (env : Env) (used : Nat) :
    g.outcomes tracked env used ∅ = 0 := by
  refine possible_eq_zero fun X member => ?_
  -- Every outcome is a part of the given solutions, and of none there is no part.
  obtain ⟨A, _, rfl⟩ := Multiset.mem_map.1 member
  rw [Assignment.nonempty_forget_iff, Set.empty_inter]
  exact Set.not_nonempty_empty

/-- Values of variables that are not in use may be forgotten before. -/
theorem outcomes_forget (g : Goal) (named : env.Plain used) (counted : tracked ≤ used)
    (solutions : Set Assignment) :
    g.outcomes tracked env used (forget used solutions) =
      g.outcomes tracked env used solutions := by
  -- The conditions only look at variables in use.
  simp only [outcomes, Assignment.forget_inter (named.reads_of_agree counted _) (Nat.le_refl used)]

/-- Values may be forgotten in two steps. -/
theorem possible_map_forget {γ : Type} (collection : Multiset γ) (f : γ → Set Assignment)
    {fewer : Nat} (less : fewer ≤ used) :
    possible (collection.map fun c => forget fewer (f c)) =
      (possible (collection.map fun c => forget used (f c))).map (forget fewer) := by
  -- Whether there is a solution does not depend on how much of it is forgotten.
  rw [← possible_map fun A => Assignment.nonempty_forget_iff, Multiset.map_map]
  simp only [Function.comp_def, Assignment.forget_forget less]

/-- Two goals leave what the second one leaves of what the first one does. -/
theorem outcomes_conj2 (g h : Goal) (named : env.Plain used) (counted : tracked ≤ used)
    (solutions : Set Assignment) :
    (Goal.conj2 g h).outcomes tracked env used solutions =
      (g.outcomes tracked env used solutions).bind (h.outcomes tracked env used) := by
  symm
  -- Outcomes without solutions leave nothing, so they need not be left out in between.
  calc (g.outcomes tracked env used solutions).bind (h.outcomes tracked env used)
      = g.alternatives.bind fun A =>
          h.outcomes tracked env used (forget used (solutions ∩ reads tracked env A)) := by
        rw [outcomes, bind_possible (h.outcomes_empty tracked env used), Multiset.bind_map]
    _ = g.alternatives.bind fun A => possible (h.alternatives.map fun B =>
          forget used (solutions ∩ reads tracked env (A ∩ B))) := by
        -- The second goal only looks at variables in use, whose values are kept.
        refine Multiset.bind_congr fun A _ => ?_
        rw [outcomes_forget h named counted, outcomes]
        simp only [Set.inter_assoc]
        rfl
    _ = (Goal.conj2 g h).outcomes tracked env used solutions := by
        rw [outcomes, alternatives, meets, Multiset.map_bind, possible_bind]
        simp only [Multiset.map_map, Function.comp_def]

/-- Fresh variables are open to all values, so a binder only asks that there are some. -/
theorem forget_inter_reads_under (start : s.Plain tracked) (named : env.Plain s.nextVar)
    (names : List String) (A : Set Reading) :
    forget s.nextVar (s.solutions ∩ reads tracked env (Reading.under names A)) =
      forget s.nextVar (s.solutions ∩
        reads tracked (env.extend names (s.freshVars names.length).1) A) := by
  refine Set.Subset.antisymm ?_ ?_
  · rintro θ ⟨θ', ⟨solves, values, length, free, read⟩, agree⟩
    -- The fresh variables get the values asked for, which no binding of the state speaks about.
    have kept : θ'.AgreeBelow s.nextVar (θ'.assign s.nextVar values free) :=
      Assignment.agreeBelow_assign
    have assigned : (s.freshVars names.length).1.map (θ'.assign s.nextVar values free).apply =
        values := by
      refine List.ext_getElem (by simp [State.freshVars, length]) fun i _ within => ?_
      simp [State.freshVars, Assignment.apply, Term.instantiate, Assignment.assign, within]
    refine ⟨θ'.assign s.nextVar values free, ⟨?_, ?_⟩, fun x within => ?_⟩
    · exact kept.satisfies start.wellScoped solves
    · show Assignment.reading _ _ _ ∈ A
      rw [Assignment.reading_extend, assigned, ← named.reading_eq start.counted kept]
      exact read
    · exact (agree x within).trans (kept x within)
  · rintro θ ⟨θ', ⟨solves, read⟩, agree⟩
    -- Conversely, the values of the fresh variables are the ones that the binder asks for.
    have read : θ'.reading tracked (env.extend names (s.freshVars names.length).1) ∈ A := read
    rw [Assignment.reading_extend] at read
    refine ⟨θ', ⟨solves, (s.freshVars names.length).1.map θ'.apply, ?_, ?_, read⟩, agree⟩
    · simp [State.freshVars]
    · intro value member
      obtain ⟨t, allocated, rfl⟩ := List.mem_map.1 member
      obtain ⟨i, _, rfl⟩ := List.mem_map.1 allocated
      exact θ'.exprFree _

/-- A binder leaves what its goal does, with the values of the fresh variables forgotten. -/
theorem outcomes_fresh (start : s.Plain tracked) (named : env.Plain s.nextVar)
    (names : List String) (g : Goal) :
    (Goal.fresh names g).outcomes tracked env s.nextVar s.solutions =
      (g.outcomes tracked (env.extend names (s.freshVars names.length).1)
        (s.freshVars names.length).2.nextVar s.solutions).map (forget s.nextVar) := by
  have more : s.nextVar ≤ (s.freshVars names.length).2.nextVar := Nat.le_add_right _ _
  -- Forgetting the fresh variables first leaves the same values of the earlier ones.
  rw [outcomes, outcomes, alternatives, Multiset.map_map, ← possible_map_forget _ _ more]
  simp only [Function.comp_def, forget_inter_reads_under start named]

/-- An equation finds one state with the solutions that satisfy it, or none that has a solution. -/
theorem possible_found_eq {u v : Term Name} (plain : (Goal.eq u v).Plain tracked)
    (start : s.Plain tracked) (named : env.Plain s.nextVar) :
    possible (((Goal.eq u v).found env s : Multiset State).map fun s' =>
        forget s.nextVar s'.solutions) =
      (Goal.eq u v).outcomes tracked env s.nextVar s.solutions := by
  have left := named.exprFree plain.1
  have right := named.exprFree plain.2
  -- A solution satisfies the equation as it is read if it does as it is instantiated.
  have equation : ∀ θ : Assignment,
      θ ∈ reads tracked env {ρ : Reading | u.instantiate ρ = v.instantiate ρ} ↔
        θ.apply (u.instantiate env.term) = θ.apply (v.instantiate env.term) := by
    intro θ
    rw [← Assignment.instantiate_reading plain.1, ← Assignment.instantiate_reading plain.2]
    rfl
  rw [outcomes, alternatives, Multiset.map_singleton]
  by_cases solvable : (s.solutions ∩
      reads tracked env {ρ : Reading | u.instantiate ρ = v.instantiate ρ}).Nonempty
  · obtain ⟨θ, solves, holds⟩ := solvable
    -- With a solution there is no cycle, so unification finds the one most general state.
    obtain ⟨s', unified, _, general⟩ := State.unify_eq_singleton
      (Assignment.Satisfies.acyclic solves start.settled) start.exprFree left right solves
      ((equation θ).1 holds)
    have same : s'.solutions = s.solutions ∩
        reads tracked env {ρ : Reading | u.instantiate ρ = v.instantiate ρ} := by
      ext θ
      exact (general.solutions θ).trans (and_congr_right fun _ => (equation θ).symm)
    rw [found, unified, ← same]
    rfl
  · rw [possible_eq_zero, possible_eq_zero]
    · intro A member
      rw [Multiset.mem_singleton.1 member, Assignment.nonempty_forget_iff]
      exact solvable
    · intro A member
      obtain ⟨s', found, rfl⟩ := Multiset.mem_map.1 member
      rw [Assignment.nonempty_forget_iff]
      rintro ⟨θ, solves⟩
      -- A solution of the found state would rule out a cycle, and so give one of the equation.
      have unified := State.unifies_of_mem_unifyWithin found
      have acyclic := Assignment.Satisfies.acyclic solves (unified.settled start.settled)
      obtain ⟨θ', before, equal⟩ := unified.exists_solution start.exprFree left right acyclic
      exact solvable ⟨θ', before, (equation θ').2 equal⟩

/--
The states that a plain goal finds leave open what its alternatives do, each of them once.

Values of variables that are not yet in use at the start are forgotten, and states without solutions
do not count.
-/
theorem Plain.possible_found (plain : g.Plain tracked) (start : s.Plain tracked)
    (named : env.Plain s.nextVar) :
    possible ((g.found env s : Multiset State).map fun s' => forget s.nextVar s'.solutions) =
      g.outcomes tracked env s.nextVar s.solutions := by
  induction g generalizing env s with
  | eq u v => exact possible_found_eq plain start named
  | succeed =>
    have all : s.solutions ∩ reads tracked env Set.univ = s.solutions := Set.inter_univ _
    rw [found, outcomes, alternatives, Multiset.map_singleton, all]
    rfl
  | fail => rfl
  | disj2 g h first second =>
    -- The states of both goals are counted, and so are the alternatives.
    rw [found, ← Multiset.coe_add, Multiset.map_add, possible_add, first plain.1 start named,
      second plain.2 start named, outcomes, outcomes, outcomes, alternatives, Multiset.map_add,
      possible_add]
  | conj2 g h first second =>
    -- What the second goal leaves depends on a state in between only through its solutions.
    have later : ∀ middle ∈ (g.found env s : Multiset State),
        possible ((h.found env middle : Multiset State).map fun s' =>
          forget s.nextVar s'.solutions) =
        h.outcomes tracked env s.nextVar (forget s.nextVar middle.solutions) := by
      intro middle there
      obtain ⟨middlePlain, grown⟩ := plain.1.found_plain start named there
      rw [possible_map_forget _ _ grown, second plain.2 middlePlain (named.mono grown),
        outcomes, ← possible_map_forget _ _ grown, outcomes_forget h named start.counted, outcomes]
    calc possible (((Goal.conj2 g h).found env s : Multiset State).map fun s' =>
          forget s.nextVar s'.solutions)
        = (g.found env s : Multiset State).bind fun middle =>
            possible ((h.found env middle : Multiset State).map fun s' =>
              forget s.nextVar s'.solutions) := by
          rw [found, ← Multiset.coe_bind, Multiset.map_bind, possible_bind]
      _ = (g.found env s : Multiset State).bind fun middle =>
            h.outcomes tracked env s.nextVar (forget s.nextVar middle.solutions) :=
          Multiset.bind_congr later
      _ = (possible ((g.found env s : Multiset State).map fun middle =>
            forget s.nextVar middle.solutions)).bind (h.outcomes tracked env s.nextVar) := by
          rw [bind_possible (h.outcomes_empty tracked env s.nextVar), Multiset.bind_map]
      _ = (Goal.conj2 g h).outcomes tracked env s.nextVar s.solutions := by
          rw [first plain.1 start named, outcomes_conj2 g h named start.counted]
  | snooze g ih => exact ih plain start named
  | fresh names g ih =>
    have more : s.nextVar ≤ (s.freshVars names.length).2.nextVar := Nat.le_add_right _ _
    -- The fresh variables are forgotten in the end, as in the outcomes.
    rw [outcomes_fresh start named, found, possible_map_forget _ _ more]
    exact congrArg _ (ih plain (start.fresh names.length) (named.fresh names))
  | disunify | never | always | trace | call => exact plain.elim

end Goal

end Relational
