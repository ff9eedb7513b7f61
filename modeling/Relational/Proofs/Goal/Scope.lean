import Relational.Proofs.Goal.Growth
import Relational.Proofs.Goal.Naming
import Relational.Proofs.Substitution.Scope

/-! Scope in a search: no variable comes up before it is allocated, so fresh variables are fresh. -/

namespace Relational

namespace State

variable {s s' : State} {u v : Term Var} {x : Var} {n : Nat}

/-- Every variable that is bound, or occurs in a bound term, has been allocated. -/
def WellScoped (s : State) : Prop :=
  s.bindings.Below s.nextVar

/-- A variable is not bound, and occurs in no term that a variable is bound to. -/
def Lacks (s : State) (x : Var) : Prop :=
  s.bindings.get? x = none ∧ ∀ y t, s.bindings.get? y = some t → x ∉ t.vars

/-- Unification stays below a bound on the variables that are there. -/
theorem Unifies.staysBelow (unified : Unifies s u v s') (below : s.bindings.Below n) (left : u.Below n)
    (right : v.Below n) : s'.bindings.Below n := by
  -- Walking and resolving bring in bound terms only, and candidates have no variables at all.
  have walked : ∀ {s : State} {t : Term Var}, s.bindings.Below n → t.Below n →
      (s.walk t).Below n :=
    fun below start => Substitution.Below.walk below start
  have resolved : ∀ {s : State} {t : Term Var}, s.bindings.Below n → t.Below n →
      (s.walkStar (s.walk t)).Below n :=
    fun below start => Substitution.Below.walkStar below (walked below start)
  have completed : ∀ {op : Operator} {l r result operand candidate : Term Var},
      op.Completes l r result operand candidate → (Term.expr l op r).Below n →
      operand.Below n ∧ candidate.Below n := by
    intro op l r result operand candidate completes start
    obtain ⟨lhs, rhs⟩ := Term.below_expr_iff.1 start
    cases completes with
    | left computes => exact ⟨lhs, Term.below_of_isAtom computes.isAtom.1⟩
    | right computes => exact ⟨rhs, Term.below_of_isAtom computes.isAtom.2.1⟩
  induction unified with
  -- By induction on the derivation; the two rules that bind a variable bind a walked one to a walked term.
  | same _ => exact below
  | bindLeft leftVar _ _ =>
    exact below.extend (Term.below_var_iff.1 (leftVar ▸ walked below left)) (walked below right)
  | bindRight rightVar _ _ =>
    exact below.extend (Term.below_var_iff.1 (rightVar ▸ walked below right)) (walked below left)
  | pairs leftPair rightPair _ _ first rest =>
    obtain ⟨a, d⟩ := Term.below_pair_iff.1 (leftPair ▸ walked below left)
    obtain ⟨a', d'⟩ := Term.below_pair_iff.1 (rightPair ▸ walked below right)
    exact rest (first below a a') d d'
  | exprs leftExpr rightExpr _ _ first rest =>
    obtain ⟨l, r⟩ := Term.below_expr_iff.1 (leftExpr ▸ resolved below left)
    obtain ⟨l', r'⟩ := Term.below_expr_iff.1 (rightExpr ▸ resolved below right)
    exact rest (first below l l') r r'
  | solveLeft leftExpr completes _ rest =>
    obtain ⟨operand, candidate⟩ := completed completes (leftExpr ▸ resolved below left)
    exact rest below operand candidate
  | solveRight rightExpr completes _ rest =>
    obtain ⟨operand, candidate⟩ := completed completes (rightExpr ▸ resolved below right)
    exact rest below operand candidate
  | values _ rest => exact rest below (resolved below left) (resolved below right)

/-- What a well-scoped state allocates next is not in it yet. -/
theorem WellScoped.lacks (wellScoped : s.WellScoped) {count : Nat}
    (allocated : .var x ∈ (s.freshVars count).1) : s.Lacks x := by
  -- New variables are numbered from the counter on, and all old ones are below it.
  obtain ⟨i, _, same⟩ := List.mem_map.1 allocated
  obtain rfl := Term.var.inj same
  refine ⟨?_, fun y t bound occurs => ?_⟩
  · cases bound : s.bindings.get? ⟨s.nextVar + i⟩ with
    | none => rfl
    | some t =>
      have allocated : s.nextVar + i < s.nextVar := (wellScoped _ t bound).1
      omega
  · have allocated : s.nextVar + i < s.nextVar := (wellScoped y t bound).2 _ occurs
    omega

end State

/-- The number of a variable that is mentioned by number. -/
def Name.number? : Name → Option Var
  | .numbered x => some x
  | .bound _ => none

/-- The variables that a goal mentions by number, not looking into the relations it calls. -/
def Goal.numbered : Goal → List Var
  | .eq u v | .disunify u v => (u.vars ++ v.vars).filterMap Name.number?
  | .disj2 g h | .conj2 g h => g.numbered ++ h.numbered
  | .snooze g | .fresh _ g | .trace _ g => g.numbered
  | .call _ args => (args.flatMap Term.vars).filterMap Name.number?
  | .succeed | .fail | .never | .always => []

namespace Program

variable {p : Program} {g : Goal} {env env' : Env} {s s' : State} {x : Var} {n : Nat}

/--
A variable is free in a goal: in one of its terms, or in the body of a relation that it calls.

The names of a binder and the parameters of a relation stand for `unit` here, and so for no variable.
-/
inductive FreeIn (p : Program) (x : Var) : Goal → Env → Prop where
  | eq {u v t : Term Name} {env : Env} (side : t = u ∨ t = v)
      (occurs : x ∈ (t.instantiate env.term).vars) : FreeIn p x (.eq u v) env
  | disunify {u v t : Term Name} {env : Env} (side : t = u ∨ t = v)
      (occurs : x ∈ (t.instantiate env.term).vars) : FreeIn p x (.disunify u v) env
  | disj2 {g h k : Goal} {env : Env} (side : k = g ∨ k = h) (within : FreeIn p x k env) :
      FreeIn p x (.disj2 g h) env
  | conj2 {g h k : Goal} {env : Env} (side : k = g ∨ k = h) (within : FreeIn p x k env) :
      FreeIn p x (.conj2 g h) env
  | snooze {g : Goal} {env : Env} (within : FreeIn p x g env) : FreeIn p x (.snooze g) env
  | trace {label : String} {g : Goal} {env : Env} (within : FreeIn p x g env) :
      FreeIn p x (.trace label g) env
  | fresh {names : List String} {g : Goal} {env : Env}
      (within : FreeIn p x g (env.extend names (names.map fun _ => .unit))) :
      FreeIn p x (.fresh names g) env
  | arg {relation : RelationName} {args : List (Term Name)} {t : Term Name} {env : Env}
      (member : t ∈ args) (occurs : x ∈ (t.instantiate env.term).vars) :
      FreeIn p x (.call relation args) env
  | body {relation : RelationName} {args : List (Term Name)} {d : Definition} {env : Env}
      (defined : p.definition? relation = some d)
      (within : FreeIn p x (.conj d.body) (Env.extend [] d.params (args.map fun _ => .unit))) :
      FreeIn p x (.call relation args) env

/--
What is free in a goal under some terms for its names is free under others, or a name brings it in.

The names may stand for anything as long as all variables that get lost are accounted for.
-/
theorem FreeIn.of_env {brought : Var → Prop} (free : p.FreeIn x g env)
    (covered : ∀ name y, y ∈ (env.term name).vars → y ∈ (env'.term name).vars ∨ brought y) :
    p.FreeIn x g env' ∨ brought x := by
  -- In a term, each variable comes from a name that occurs in it.
  have term : ∀ {env env' : Env} {t : Term Name},
      (∀ name y, y ∈ (env.term name).vars → y ∈ (env'.term name).vars ∨ brought y) →
      x ∈ (t.instantiate env.term).vars → x ∈ (t.instantiate env'.term).vars ∨ brought x := by
    intro env env' t covered occurs
    obtain ⟨name, member, there⟩ := Term.mem_vars_instantiate.1 occurs
    exact (covered name x there).imp_left fun here => Term.mem_vars_instantiate.2 ⟨name, member, here⟩
  induction free generalizing env' with
  | eq side occurs => exact (term covered occurs).imp_left (.eq side)
  | disunify side occurs => exact (term covered occurs).imp_left (.disunify side)
  | disj2 side _ ih => exact (ih covered).imp_left (.disj2 side)
  | conj2 side _ ih => exact (ih covered).imp_left (.conj2 side)
  | snooze _ ih => exact (ih covered).imp_left .snooze
  | trace _ ih => exact (ih covered).imp_left .trace
  | @fresh names _ env _ ih =>
    -- Names of the binder stand for the same on both sides, and all others are as before.
    refine (ih fun name y occurs => ?_).imp_left .fresh
    cases name with
    | numbered z => exact covered (.numbered z) y occurs
    | bound name =>
      rw [Env.term_extend] at occurs ⊢
      cases found : given names (names.map fun _ => Term.unit) name with
      | none =>
        rw [found] at occurs
        exact covered (.bound name) y occurs
      | some t =>
        rw [found] at occurs
        exact .inl occurs
  | arg member occurs => exact (term covered occurs).imp_left (.arg member)
  -- The body of a relation sees none of these names, only its own parameters.
  | body defined within _ => exact .inl (.body defined within)

/-- A variable that a binder's terms bring into a goal is in one of them, or free without them. -/
theorem FreeIn.of_extend {names : List String} {terms : List (Term Var)}
    (free : p.FreeIn x g (env.extend names terms)) :
    p.FreeIn x g (env.extend names (terms.map fun _ => .unit)) ∨ ∃ t ∈ terms, x ∈ t.vars := by
  -- A name of the binder brings its own term in, and the others are what they were.
  have covered : ∀ name y, y ∈ ((env.extend names terms).term name).vars →
      y ∈ ((env.extend names (terms.map fun _ => .unit)).term name).vars ∨
        ∃ t ∈ terms, y ∈ t.vars := by
    intro name y occurs
    cases name with
    | numbered z => exact .inl occurs
    | bound name =>
      rw [Env.term_extend] at occurs ⊢
      rw [given_map]
      cases found : given names terms name with
      | none =>
        rw [found] at occurs
        exact .inl occurs
      | some t =>
        rw [found] at occurs
        exact .inr ⟨t, mem_of_given found, occurs⟩
  exact free.of_env covered

/-- A goal is in scope if all that it, its names and the relations of the program mention is. -/
theorem FreeIn.lt_of_numbered (free : p.FreeIn x g env) (written : ∀ x ∈ g.numbered, x.id < n)
    (defined : ∀ relation d, p.definition? relation = some d →
      ∀ x ∈ (Goal.conj d.body).numbered, x.id < n)
    (named : ∀ name, (env.term (.bound name)).Below n) : x.id < n := by
  -- A variable of a term is written there by its number, or comes from a name.
  have term : ∀ {env : Env} {t : Term Name} {names : List Name}, (∀ name ∈ t.vars, name ∈ names) →
      (∀ x ∈ names.filterMap Name.number?, x.id < n) →
      (∀ name, (env.term (.bound name)).Below n) → x ∈ (t.instantiate env.term).vars →
      x.id < n := by
    intro env t names listed written named occurs
    obtain ⟨name, member, there⟩ := Term.mem_vars_instantiate.1 occurs
    cases name with
    | numbered z =>
      obtain rfl := List.mem_singleton.1 there
      exact written x (List.mem_filterMap.2 ⟨_, listed _ member, rfl⟩)
    | bound name => exact named name x there
  -- Names that stand for the empty list bring no variables into a goal.
  have hidden : ∀ {env : Env} {names : List String} {units : List (Term Var)},
      (∀ t ∈ units, t = .unit) → (∀ name, (env.term (.bound name)).Below n) →
      ∀ name, ((env.extend names units).term (.bound name)).Below n := by
    intro env names units all named name
    rw [Env.term_extend]
    cases found : given names units name with
    | none => exact named name
    | some t =>
      rw [all t (mem_of_given found)]
      exact nofun
  -- By induction on where the variable is free; below a binder and in a body all names are hidden.
  induction free with
  | @eq u v t _ side occurs | @disunify u v t _ side occurs =>
    refine term (fun name member => ?_) written named occurs
    rcases side with rfl | rfl
    · exact List.mem_append_left _ member
    · exact List.mem_append_right _ member
  | disj2 side _ ih | conj2 side _ ih =>
    refine ih (fun x member => written x ?_) named
    rcases side with rfl | rfl
    · exact List.mem_append_left _ member
    · exact List.mem_append_right _ member
  | snooze _ ih => exact ih written named
  | trace _ ih => exact ih written named
  -- The binder's own names are hidden, and the other names are below the bound.
  | fresh _ ih => exact ih written (hidden (by simp) named)
  | arg member occurs =>
    exact term (fun name there => List.mem_flatMap.2 ⟨_, member, there⟩) written named occurs
  -- A body is written in the program, whose variables are below the bound as well.
  | body found _ ih => exact ih (defined _ _ found) (hidden (by simp) nofun)

/-- All free variables of a goal have been allocated in a state. -/
def Scoped (p : Program) (g : Goal) (env : Env) (s : State) : Prop :=
  ∀ x, p.FreeIn x g env → x.id < s.nextVar

/-- Allocating more variables leaves a goal in scope. -/
theorem Scoped.mono (inScope : p.Scoped g env s) (grows : s.Grows s') : p.Scoped g env s' :=
  -- The counter has not fallen, so what was below it still is.
  fun x free => Nat.lt_of_lt_of_le (inScope x free) grows.counts

/-- The goal under a binder is in scope once the binder has allocated its variables. -/
theorem Scoped.fresh {names : List String} (inScope : p.Scoped (.fresh names g) env s) :
    p.Scoped g (env.extend names (s.freshVars names.length).1) (s.freshVars names.length).2 := by
  intro x free
  have units : (s.freshVars names.length).1.map (fun _ => (.unit : Term Var)) =
      names.map fun _ => .unit := by
    simp [State.freshVars, Function.const_def]
  rcases free.of_extend with outside | ⟨t, allocated, occurs⟩
  · rw [units] at outside
    exact Nat.lt_of_lt_of_le (inScope x (.fresh outside)) (Nat.le_add_right _ _)
  · -- A variable of the binder is one of those that were just allocated.
    obtain ⟨i, within, rfl⟩ := List.mem_map.1 allocated
    obtain rfl := List.mem_singleton.1 occurs
    exact Nat.add_lt_add_left (List.mem_range.1 within) s.nextVar

/-- The body of a relation is in scope wherever a call of it is. -/
theorem Scoped.body {relation : RelationName} {args : List (Term Name)} {d : Definition}
    (inScope : p.Scoped (.call relation args) env s) (defined : p.definition? relation = some d) :
    p.Scoped (.conj d.body) (Env.extend [] d.params (args.map (·.instantiate env.term))) s := by
  intro x free
  -- What is free in the body is free in the relation itself, or comes with an argument.
  rcases free.of_extend with outside | ⟨t, passed, occurs⟩
  · rw [List.map_map] at outside
    exact inScope x (.body defined outside)
  · obtain ⟨arg, member, rfl⟩ := List.mem_map.1 passed
    exact inScope x (.arg member occurs)

/-- A goal in scope leads from well-scoped states to well-scoped states. -/
theorem Derives.wellScoped (derived : p.Derives g env s s') (before : s.WellScoped)
    (inScope : p.Scoped g env s) : s'.WellScoped := by
  -- The counter only grows, so what is in scope stays in scope.
  induction derived with
  | eq unified =>
    have unified := State.unifies_of_reached unified
    rw [State.WellScoped, unified.nextVar_eq]
    -- Both sides are terms of the goal, so their variables are in scope.
    exact unified.staysBelow before (fun x occurs => inScope x (.eq (.inl rfl) occurs))
      fun x occurs => inScope x (.eq (.inr rfl) occurs)
  | disunify _ => exact before
  | succeed => exact before
  | always => exact before
  | left _ ih => exact ih before fun x free => inScope x (.disj2 (.inl rfl) free)
  | right _ ih => exact ih before fun x free => inScope x (.disj2 (.inr rfl) free)
  | both first _ ihFirst ihSecond =>
    have middle := ihFirst before fun x free => inScope x (.conj2 (.inl rfl) free)
    have second : p.Scoped _ _ _ := fun x free => inScope x (.conj2 (.inr rfl) free)
    exact ihSecond middle (second.mono first.grows)
  | snooze _ ih => exact ih before fun x free => inScope x (.snooze free)
  | fresh _ ih => exact ih (before.mono (Nat.le_add_right _ _)) inScope.fresh
  | trace _ ih => exact ih before fun x free => inScope x (.trace free)
  | call defined _ ih => exact ih before (inScope.body defined)

/--
In the course of a search a goal is attempted from some state, under some terms for its names.

The second part of a conjunction is attempted from every state that its first part reaches.
-/
inductive Attempts (p : Program) (k : Goal) (e : Env) (m : State) :
    Goal → Env → State → Prop where
  | self : Attempts p k e m k e m
  | disj2 {g h part : Goal} {env : Env} {s : State} (side : part = g ∨ part = h)
      (later : Attempts p k e m part env s) : Attempts p k e m (.disj2 g h) env s
  | first {g h : Goal} {env : Env} {s : State} (later : Attempts p k e m g env s) :
      Attempts p k e m (.conj2 g h) env s
  | second {g h : Goal} {env : Env} {s middle : State}
      (reached : Stream.Reached p.unfold middle (g.apply env s))
      (later : Attempts p k e m h env middle) : Attempts p k e m (.conj2 g h) env s
  | snooze {g : Goal} {env : Env} {s : State} (later : Attempts p k e m g env s) :
      Attempts p k e m (.snooze g) env s
  | trace {label : String} {g : Goal} {env : Env} {s : State}
      (later : Attempts p k e m g env s) : Attempts p k e m (.trace label g) env s
  | fresh {names : List String} {g : Goal} {env : Env} {s : State}
      (later : Attempts p k e m g (env.extend names (s.freshVars names.length).1)
        (s.freshVars names.length).2) : Attempts p k e m (.fresh names g) env s
  | call {relation : RelationName} {args : List (Term Name)} {d : Definition} {env : Env}
      {s : State} (defined : p.definition? relation = some d)
      (later : Attempts p k e m (.conj d.body)
        (Env.extend [] d.params (args.map (·.instantiate env.term))) s) :
      Attempts p k e m (.call relation args) env s

/-- Every goal of a search is attempted in scope, and from a well-scoped state. -/
theorem Attempts.scoped {k : Goal} {e : Env} {m : State} (attempts : p.Attempts k e m g env s)
    (before : s.WellScoped) (inScope : p.Scoped g env s) : m.WellScoped ∧ p.Scoped k e m := by
  induction attempts with
  | self => exact ⟨before, inScope⟩
  -- By induction on the way to the attempted goal; the part it lies in has no other free variables.
  | disj2 side _ ih => exact ih before fun x free => inScope x (.disj2 side free)
  | first _ ih => exact ih before fun x free => inScope x (.conj2 (.inl rfl) free)
  | second reached _ ih =>
    -- The first part keeps all promises, and has allocated at least as many variables by then.
    obtain ⟨n, reached⟩ := reached
    have derived := derives_of_reachedWithin reached
    have first := derived.wellScoped before fun x free => inScope x (.conj2 (.inl rfl) free)
    have second : p.Scoped _ _ _ := fun x free => inScope x (.conj2 (.inr rfl) free)
    exact ih first (second.mono derived.grows)
  | snooze _ ih => exact ih before fun x free => inScope x (.snooze free)
  | trace _ ih => exact ih before fun x free => inScope x (.trace free)
  | fresh _ ih => exact ih (before.mono (Nat.le_add_right _ _)) inScope.fresh
  | call defined _ ih => exact ih before (inScope.body defined)

/--
Fresh variables are fresh.

A goal whose free variables are all allocated leads from a well-scoped state to well-scoped states
only. So what is allocated next is not yet there: neither in a state that is reached, nor in any state
from which the search comes to allocate variables on the way.
-/
theorem reached_wellScoped {p : Program} {g : Goal} {env : Env} {s : State}
    (before : s.WellScoped) (inScope : ∀ x, p.FreeIn x g env → x.id < s.nextVar) :
    (∀ s', Stream.Reached p.unfold s' (g.apply env s) → s'.WellScoped ∧
      ∀ count x, .var x ∈ (s'.freshVars count).1 → s'.Lacks x) ∧
    ∀ names k e m, p.Attempts (.fresh names k) e m g env s →
      ∀ x, .var x ∈ (m.freshVars names.length).1 → m.Lacks x := by
  refine ⟨fun s' reached => ?_, fun names k e m attempts x allocated => ?_⟩
  · -- What is reached is derived, and a state that is in scope lacks whatever comes next.
    obtain ⟨n, reached⟩ := reached
    have after := (derives_of_reachedWithin reached).wellScoped before inScope
    exact ⟨after, fun count x => after.lacks⟩
  · exact (attempts.scoped before inScope).1.lacks allocated

/-- The second item of a list is found behind a call in a call, with two fresh variables for each. -/
theorem reached_wellScoped_eight :
    ((State.mk .empty 2).bind ⟨0⟩ (.list [.int 7, .int 8])).WellScoped ∧
    (∀ x, Program.standard.FreeIn x
      (Goal.membero (.var (.numbered ⟨1⟩)) (.var (.numbered ⟨0⟩))) [] → x.id < 2) ∧
    ((((((State.mk .empty 6).bind ⟨0⟩ (.list [.int 7, .int 8])).bind ⟨2⟩ (.int 7)).bind ⟨3⟩
      (.list [.int 8])).bind ⟨4⟩ (.int 8)).bind ⟨5⟩ .unit |>.bind ⟨1⟩ (.int 8)).WellScoped ∧
    ((((((State.mk .empty 6).bind ⟨0⟩ (.list [.int 7, .int 8])).bind ⟨2⟩ (.int 7)).bind ⟨3⟩
      (.list [.int 8])).bind ⟨4⟩ (.int 8)).bind ⟨5⟩ .unit |>.bind ⟨1⟩ (.int 8)).Lacks ⟨6⟩ := by
  have before : ((State.mk .empty 2).bind ⟨0⟩ (.list [.int 7, .int 8])).WellScoped :=
    Substitution.below_empty.extend (by decide) (by decide)
  have inScope : ∀ x, Program.standard.FreeIn x
      (Goal.membero (.var (.numbered ⟨1⟩)) (.var (.numbered ⟨0⟩))) [] → x.id < 2 := by
    intro x free
    refine free.lt_of_numbered (by decide) (fun relation d defined => ?_) nofun
    -- The relations on lists mention nothing by number, and there are no others.
    cases relation with
    | list relation =>
      obtain rfl := Option.some.inj defined
      cases relation <;> exact nofun
    | named name => cases defined
  have reached : Stream.Reached Program.standard.unfold
      ((((((State.mk .empty 6).bind ⟨0⟩ (.list [.int 7, .int 8])).bind ⟨2⟩ (.int 7)).bind ⟨3⟩
        (.list [.int 8])).bind ⟨4⟩ (.int 8)).bind ⟨5⟩ .unit |>.bind ⟨1⟩ (.int 8))
      ((Goal.membero (.var (.numbered ⟨1⟩)) (.var (.numbered ⟨0⟩))).apply []
        ((State.mk .empty 2).bind ⟨0⟩ (.list [.int 7, .int 8]))) :=
    ⟨12, .forced (.forced (.forced (.forced (.forced (.forced (.tail
      (.forced (.forced (.forced (.forced (.forced (.forced .head))))))))))))⟩
  obtain ⟨after, allocates⟩ := (reached_wellScoped before inScope).1 _ reached
  exact ⟨before, inScope, after, allocates 1 ⟨6⟩ (by decide)⟩

end Program

end Relational
