import Relational.Proofs.Goal.Outcomes
import Relational.Run

/-! Reordering: the order of goals and of alternatives changes no answer to a plain goal. -/

namespace Relational

open Assignment (forget)

/-- Some function gives the answers of every state without a cycle, from its solutions alone. -/
theorem State.exists_answers (n : Nat) (terms : List (Term Var))
    (tracked : ∀ t ∈ terms, ∃ x : Var, t = .var x ∧ x.id < n) :
    ∃ answers : Set Assignment → Row, ∀ s : State, s.bindings.Acyclic → s.bindings.ExprFree →
      answers (forget n s.solutions) = s.reifyAll terms := by
  -- States with the same solutions say the same, so solutions and answers are related uniquely.
  have unique : ∀ (left : Set Assignment) (row row' : Row),
      (∃ s : State, s.bindings.Acyclic ∧ s.bindings.ExprFree ∧ forget n s.solutions = left ∧
        s.reifyAll terms = row) →
      (∃ s : State, s.bindings.Acyclic ∧ s.bindings.ExprFree ∧ forget n s.solutions = left ∧
        s.reifyAll terms = row') → row = row' := by
    rintro left row row' ⟨s, acyclic, plain, same, rfl⟩ ⟨s', acyclic', plain', same', rfl⟩
    refine List.map_congr_left fun t member => ?_
    obtain ⟨x, rfl, within⟩ := tracked t member
    exact reify_eq_of_forget_eq acyclic plain acyclic' plain' (same.trans same'.symm) within
  obtain ⟨answers, agree⟩ := exists_function unique
  exact ⟨answers, fun s acyclic plain => agree _ _ ⟨s, acyclic, plain, rfl, rfl⟩⟩

namespace Goal

variable {g : Goal} {s s' : State} {env : Env} {tracked : Nat}

/-- The search for a plain goal reaches exactly the states in which it holds. -/
theorem Plain.reached_iff (plain : g.Plain tracked) (p : Program) :
    Stream.Reached p.unfold s' (g.apply env s) ↔ s' ∈ g.found env s := by
  obtain ⟨states, n, ends, same⟩ := plain.exists_endsWith p env s
  -- The search ends, with the same states in some order.
  rw [← ends.mem_iff, same.mem_iff]

/-- Without cycles, what the states say together is determined by what the goal leaves open. -/
theorem Plain.map_found_eq (plain : g.Plain tracked) (start : s.Plain tracked)
    (named : env.Plain s.nextVar) (acyclic : ∀ s' ∈ g.found env s, s'.bindings.Acyclic)
    {say : State → Row} {answers : Set Assignment → Row}
    (determined : ∀ s' : State, s'.bindings.Acyclic → s'.bindings.ExprFree →
      answers (forget s.nextVar s'.solutions) = say s') :
    (g.found env s : Multiset State).map say =
      (g.outcomes tracked env s.nextVar s.solutions).map answers := by
  have exprFree : ∀ s' ∈ g.found env s, s'.bindings.ExprFree :=
    fun s' member => (plain.found_plain start named member).1.exprFree
  -- A state without a cycle has a solution, so none of the states is left out.
  have solvable : ∀ X ∈ (g.found env s : Multiset State).map fun s' =>
      forget s.nextVar s'.solutions, X.Nonempty := by
    intro X member
    obtain ⟨s', there, rfl⟩ := Multiset.mem_map.1 member
    rw [Assignment.nonempty_forget_iff]
    exact ⟨_, Assignment.ofSubstitution_satisfies (acyclic s' there) (exprFree s' there)⟩
  rw [← plain.possible_found start named, possible_eq_self solvable, Multiset.map_map]
  refine Multiset.map_congr rfl fun s' member => ?_
  exact (determined s' (acyclic s' member) (exprFree s' member)).symm

end Goal

namespace Program

/-- The tracked variables of a run, one for each name. -/
abbrev runVars (names : List String) : List (Term Var) :=
  (State.empty.freshVars names.length).1

/-- The state in which a run starts. -/
abbrev runStart (names : List String) : State :=
  (State.empty.freshVars names.length).2

/-- What names stand for in a run. -/
abbrev runEnv (names : List String) : Env :=
  Env.extend [] names (runVars names)

/--
No state that a run over the given names finds has a cyclic binding.

Bindings are kept along a branch, so one that came up on the way to an answer would still be there.
-/
def RunsAcyclic (p : Program) (names : List String) (g : Goal) : Prop :=
  ∀ s, Stream.Reached p.unfold s (g.apply (runEnv names) (runStart names)) → s.bindings.Acyclic

variable {names : List String} {g : Goal}

/-- A run starts in a plain state. -/
theorem plain_runStart (names : List String) : (runStart names).Plain names.length where
  settled := Substitution.settled_empty
  exprFree := Substitution.exprFree_empty
  wellScoped := Substitution.below_empty
  counted := Nat.le_add_left _ _

/-- The names of a run stand for its tracked variables. -/
theorem plain_runEnv (names : List String) : (runEnv names).Plain (runStart names).nextVar := by
  -- No names are bound before the run.
  have nothing : Env.Plain State.empty.nextVar [] := fun _ => ⟨trivial, nofun⟩
  exact nothing.fresh names

/-- The tracked variables of a run are in use from the start. -/
theorem mem_runVars {t : Term Var} (member : t ∈ runVars names) :
    ∃ x : Var, t = .var x ∧ x.id < (runStart names).nextVar := by
  -- They are the variables that the run has taken first.
  obtain ⟨i, within, rfl⟩ := List.mem_map.1 member
  exact ⟨_, rfl, Nat.add_lt_add_left (List.mem_range.1 within) _⟩

/-- A run that asks a plain goal for everything ends, with one row for every state found. -/
theorem exists_run? (p : Program) (plain : g.Plain names.length) :
    ∃ (rows : List Row) (least : Nat),
      (rows : Multiset Row) = (g.found (runEnv names) (runStart names) : Multiset State).map
        (·.reifyAll (runVars names)) ∧
      ∀ fuel, least ≤ fuel → p.run? fuel .all names g = some rows := by
  obtain ⟨states, least, ends, same⟩ := plain.exists_endsWith p (runEnv names) (runStart names)
  refine ⟨states.map (·.reifyAll (runVars names)), least, Multiset.coe_eq_coe.2 (same.map _), ?_⟩
  intro fuel enough
  -- Enough fuel for the ending is enough for the run.
  simp only [run?, states?, ends.collect enough, Option.map_some]

/--
The order of goals and of alternatives does not change the answers.

A plain goal is run over some names for everything, and so is a goal that comes of it by changing the
order of conjunctions and disjunctions at any depth.
If no state found has a cyclic binding, both runs end, with the same rows up to their order.
-/
theorem run?_reorders (p : Program) (names : List String) {g g' : Goal}
    (plain : g.Plain names.length) (reorders : g.Reorders g') (acyclic : p.RunsAcyclic names g)
    (acyclic' : p.RunsAcyclic names g') :
    ∃ rows rows' least, rows.Perm rows' ∧ ∀ fuel, least ≤ fuel →
      p.run? fuel .all names g = some rows ∧ p.run? fuel .all names g' = some rows' := by
  -- The other goal is as plain, so its run ends, too.
  have plain' := reorders.plain_iff.1 plain
  obtain ⟨rows, least, all, run⟩ := exists_run? p plain
  obtain ⟨rows', least', all', run'⟩ := exists_run? p plain'
  obtain ⟨answers, determined⟩ :=
    State.exists_answers (runStart names).nextVar (runVars names) fun _ => mem_runVars
  refine ⟨rows, rows', max least least', Multiset.coe_eq_coe.1 ?_, fun fuel enough =>
    ⟨run fuel (le_of_max_le_left enough), run' fuel (le_of_max_le_right enough)⟩⟩
  -- Both goals have the same alternatives, and these determine what they leave open.
  have same : g.outcomes names.length (runEnv names) = g'.outcomes names.length (runEnv names) := by
    funext used solutions
    rw [Goal.outcomes, Goal.outcomes, reorders.alternatives_eq]
  -- No state that is found has a cycle, so each is determined by its solutions.
  have answered := plain.map_found_eq (plain_runStart names) (plain_runEnv names)
    (fun s member => acyclic s ((plain.reached_iff p).2 member)) determined
  have answered' := plain'.map_found_eq (plain_runStart names) (plain_runEnv names)
    (fun s member => acyclic' s ((plain'.reached_iff p).2 member)) determined
  rw [all, all', answered, answered', same]

/--
Two clauses and two alternatives in the opposite order give the same three rows.

The clause that makes `x` one leaves room for the first alternative only, and the other one for both.
-/
theorem run?_reorders_three :
    ∃ rows rows' least, rows.Perm rows' ∧
      rows.Perm [[.int 1, .int 2], [.int 2, .int 2], [.unknown, .unknown]] ∧
      ∀ fuel, least ≤ fuel →
        Program.standard.run? fuel .all ["x", "y"] (.fresh ["z"] (.conj
          [.conde [[.eq (named "x") (named "z"), .eq (named "z") (.int 1)],
            [.eq (named "x") (named "y")]],
          .disj2 (.eq (.var (.numbered ⟨1⟩)) (.int 2)) (.eq (named "z") (.int 3))])) = some rows ∧
        Program.standard.run? fuel .all ["x", "y"] (.fresh ["z"] (.conj
          [.disj2 (.eq (named "z") (.int 3)) (.eq (.var (.numbered ⟨1⟩)) (.int 2)),
          .conde [[.eq (named "x") (named "y")],
            [.eq (named "z") (.int 1), .eq (named "x") (named "z")]]])) = some rows' := by
  -- Bindings to newer variables only cannot form a cycle.
  have ranked : ∀ s : State, (∀ binding ∈ s.bindings.entries, ∀ y ∈ binding.2.vars,
      3 - y.id < 3 - binding.1.id) → s.bindings.Acyclic := by
    intro s falls
    refine Substitution.acyclic_of_rank (fun x => 3 - x.id) fun x y depends => ?_
    obtain ⟨t, bound, occurs⟩ := depends
    exact falls _ (Substitution.mem_of_findBinding bound) y occurs
  -- All terms are atoms and variables, and the only number is that of a tracked one.
  have plain : (Goal.fresh ["z"] (.conj
      [.conde [[.eq (named "x") (named "z"), .eq (named "z") (.int 1)],
        [.eq (named "x") (named "y")]],
      .disj2 (.eq (.var (.numbered ⟨1⟩)) (.int 2)) (.eq (named "z") (.int 3))])).Plain 2 := by
    simp [Goal.Plain, Goal.plain_conj_iff, Goal.conde, Goal.plain_disj_iff, Term.Plain,
      Term.ExprFree, Term.vars, named]
  have clauses : Goal.Reorders
      (.conde [[.eq (named "x") (named "z"), .eq (named "z") (.int 1)],
        [.eq (named "x") (named "y")]])
      (.conde [[.eq (named "x") (named "y")],
        [.eq (named "z") (.int 1), .eq (named "x") (named "z")]]) :=
    .conde (.swap _ _ _) (.cons (.refl _) (.cons (.swap _ _ _) .nil))
  -- The two clauses are exchanged, the goals of one of them, the two alternatives, and then the whole.
  have reorders := Goal.Reorders.fresh ["z"] (.trans
    (.conjMembers (.cons clauses (.cons (.swapDisj (.eq (.var (.numbered ⟨1⟩)) (.int 2))
      (.eq (named "z") (.int 3))) .nil))) (.conj (.swap _ _ _)))
  have plain' := reorders.plain_iff.1 plain
  obtain ⟨rows, rows', least, same, runs⟩ :=
    run?_reorders .standard ["x", "y"] plain reorders
      -- The states are listed by running the goal, and each binding is seen to lead to a newer variable.
      (fun s reached => ranked s (by
        revert s
        simp only [plain.reached_iff]
        decide))
      fun s reached => ranked s (by
        revert s
        simp only [plain'.reached_iff]
        decide)
  refine ⟨rows, rows', least, same, ?_, runs⟩
  -- With fuel enough for both, the rows are those of the states that the first goal finds.
  obtain ⟨found, enough, all, run⟩ := @exists_run? ["x", "y"] _ .standard plain
  have once := (runs _ (Nat.le_max_left least enough)).1
  obtain rfl := Option.some.inj (once.symm.trans (run _ (Nat.le_max_right least enough)))
  refine Multiset.coe_eq_coe.1 (all.trans ?_)
  rw [Multiset.map_coe]
  exact congrArg _ rfl

end Program

end Relational
