import Relational.Proofs.Stream.Ending
import Relational.Proofs.Stream.Mapping
import Relational.Proofs.Substitution.Assignment
import Relational.Relation

/-! Plain goals: equations put together by finite means, whose searches come to an end. -/

namespace Relational

/-- A term without expressions, in which only tracked variables are mentioned by number. -/
def Term.Plain (tracked : Nat) (t : Term Name) : Prop :=
  t.ExprFree ∧ ∀ x, .numbered x ∈ t.vars → x.id < tracked

namespace Goal

/--
A goal put together from equations of plain terms by conjunction, disjunction, binders and delays.

It calls no relation, and takes no equation back.
-/
def Plain (tracked : Nat) : Goal → Prop
  | .eq u v => u.Plain tracked ∧ v.Plain tracked
  | .succeed | .fail => True
  | .disj2 g h | .conj2 g h => g.Plain tracked ∧ h.Plain tracked
  | .snooze g | .fresh _ g => g.Plain tracked
  | .disunify .. | .never | .always | .trace .. | .call .. => False

/--
A goal put together from any equations by conjunction, disjunction, binders and delays.

It calls no relation, so the search for it comes to an end.
-/
def Finitary : Goal → Prop
  | .eq .. | .succeed | .fail => True
  | .disj2 g h | .conj2 g h => g.Finitary ∧ h.Finitary
  | .snooze g | .fresh _ g => g.Finitary
  | .disunify .. | .never | .always | .trace .. | .call .. => False

/-- The states in which a finitary goal holds, one alternative after the other rather than in turns. -/
def found : Goal → Env → State → List State
  | .eq u v, env, s => (s.unify (u.instantiate env.term) (v.instantiate env.term)).members
  | .succeed, _, s => [s]
  | .disj2 g h, env, s => g.found env s ++ h.found env s
  | .conj2 g h, env, s => (g.found env s).flatMap (h.found env)
  | .snooze g, env, s => g.found env s
  | .fresh names g, env, s =>
    g.found (env.extend names (s.freshVars names.length).1) (s.freshVars names.length).2
  | _, _, _ => []

variable {g : Goal} {goals : List Goal} {tracked : Nat} {env : Env} {s : State}

/-- Goals joined one after the other are of some kind if all of them are, the first one included. -/
theorem foldl_iff {kind : Goal → Prop} (join : Goal → Goal → Goal)
    (joined : ∀ g h, kind (join g (.snooze h)) ↔ kind g ∧ kind h) (start : Goal) :
    kind (goals.foldl (fun earlier g => join earlier (.snooze g)) start) ↔
      kind start ∧ ∀ g ∈ goals, kind g := by
  -- Each further goal becomes part of the start for those behind it.
  induction goals generalizing start with
  | nil => simp
  | cons g goals ih => rw [List.foldl_cons, ih, List.forall_mem_cons, joined, and_assoc]

/-- A conjunction is plain if all its goals are. -/
theorem plain_conj_iff : (conj goals).Plain tracked ↔ ∀ g ∈ goals, g.Plain tracked :=
  -- A fold is plain where it starts and in each goal that is joined, and it starts with one that succeeds.
  (foldl_iff .conj2 (fun _ _ => .rfl) .succeed).trans (and_iff_right trivial)

/-- A disjunction is plain if all its goals are. -/
theorem plain_disj_iff : (disj goals).Plain tracked ↔ ∀ g ∈ goals, g.Plain tracked :=
  (foldl_iff .disj2 (fun _ _ => .rfl) .fail).trans (and_iff_right trivial)

/-- A conjunction is finitary if all its goals are. -/
theorem finitary_conj_iff : (conj goals).Finitary ↔ ∀ g ∈ goals, g.Finitary :=
  -- The same fold with the weaker condition.
  (foldl_iff .conj2 (fun _ _ => .rfl) .succeed).trans (and_iff_right trivial)

/-- A disjunction is finitary if all its goals are. -/
theorem finitary_disj_iff : (disj goals).Finitary ↔ ∀ g ∈ goals, g.Finitary :=
  (foldl_iff .disj2 (fun _ _ => .rfl) .fail).trans (and_iff_right trivial)

/-- What makes a goal plain is mostly asked of its equations. -/
theorem Plain.finitary (plain : g.Plain tracked) : g.Finitary := by
  induction g with
  -- By induction on the goal; the goals that need not end are not plain either.
  | eq | succeed | fail => trivial
  | disj2 g h first second | conj2 g h first second => exact ⟨first plain.1, second plain.2⟩
  | snooze g ih | fresh names g ih => exact ih plain
  | disunify | never | always | trace | call => exact plain.elim

/-- A conjunction holds in the states that all its goals lead to, one after the other. -/
theorem found_conj : (conj goals).found env s =
    goals.foldr (fun g rest s' => (g.found env s').flatMap rest) (fun s' => [s']) s := by
  -- Goals are joined from the left, so each further one is looked at in what came of those before.
  have general : ∀ start : Goal,
      (goals.foldl (fun earlier g => .conj2 earlier (.snooze g)) start).found env s =
        (start.found env s).flatMap
          (goals.foldr (fun g rest s' => (g.found env s').flatMap rest) fun s' => [s']) := by
    induction goals with
    | nil => simp
    | cons g goals ih =>
      intro start
      rw [List.foldl_cons, ih, List.foldr_cons, found, List.flatMap_assoc]
      rfl
  rw [conj, general, found, List.flatMap_singleton]

/-- A disjunction holds in the states of all its goals. -/
theorem found_disj : (disj goals).found env s = goals.flatMap (·.found env s) := by
  -- What was joined before stays in front.
  have general : ∀ start : Goal,
      (goals.foldl (fun earlier g => .disj2 earlier (.snooze g)) start).found env s =
        start.found env s ++ goals.flatMap (·.found env s) := by
    induction goals with
    | nil => simp
    | cons g goals ih =>
      intro start
      rw [List.foldl_cons, ih]
      simp [found]
  exact general .fail

/-- The search for a finitary goal ends, with exactly the states in which it holds. -/
theorem Finitary.exists_endsWith (finitary : g.Finitary) (p : Program) (env : Env) (s : State) :
    ∃ states n, Stream.EndsWith p.unfold states n (g.apply env s) ∧
      states.Perm (g.found env s) := by
  induction g generalizing env s with
  | eq u v =>
    -- A unification is finite, and so it ends with its members.
    obtain ⟨states, ends, same⟩ := Stream.exists_endsWith_members
      (s.unify (u.instantiate env.term) (v.instantiate env.term))
    exact ⟨states, _, ends.lift p.unfold, same⟩
  | succeed => exact ⟨[s], 0, .item .empty, .refl _⟩
  | fail => exact ⟨[], 0, .empty, .refl _⟩
  | disj2 g h first second =>
    obtain ⟨xs, n, left, sameLeft⟩ := first finitary.1 env s
    obtain ⟨ys, m, right, sameRight⟩ := second finitary.2 env s
    -- Merging keeps the items of both sides, in some order.
    obtain ⟨zs, joined, both⟩ := left.append right
    exact ⟨zs, n + m, joined, both.trans (sameLeft.append sameRight)⟩
  | conj2 g h first second =>
    obtain ⟨xs, n, ends, same⟩ := first finitary.1 env s
    -- The second goal has an ending of its own for every state that the first one finds.
    choose parts counts image sameImage using second finitary.2 env
    obtain ⟨ys, mapped, all⟩ := Stream.EndsWith.mapping
      (Stream.mapping_flatMap p.unfold (h.apply env)) rfl ends fun s' _ => image s'
    refine ⟨ys, _, mapped, all.trans ?_⟩
    exact same.flatMap fun s' _ => sameImage s'
  | snooze g ih =>
    obtain ⟨states, n, ends, same⟩ := ih finitary env s
    exact ⟨states, n + 1, .forced ends, same⟩
  | fresh names g ih => exact ih finitary _ _
  | disunify | never | always | trace | call => exact finitary.elim

/-- The search for a plain goal ends, with exactly the states in which it holds. -/
theorem Plain.exists_endsWith (plain : g.Plain tracked) (p : Program) (env : Env) (s : State) :
    ∃ states n, Stream.EndsWith p.unfold states n (g.apply env s) ∧ states.Perm (g.found env s) :=
  -- Only that the goal is finitary matters for this.
  plain.finitary.exists_endsWith p env s

end Goal

end Relational
