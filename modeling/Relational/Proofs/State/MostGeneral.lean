import Relational.Proofs.State.Soundness
import Relational.Proofs.Substitution.Vocabulary

/-! Unification without expressions: it finds the most general solution whenever there is one. -/

namespace Relational

open Relation (ReflTransGen)

/-- Equal values of terms other than variables come from equal leaves or from pairs of equal values. -/
theorem Assignment.eq_or_pairs {θ : Assignment} {u v : Term Var} (left : u.ExprFree)
    (right : v.ExprFree) (leftKnown : ∀ x, u ≠ .var x) (rightKnown : ∀ y, v ≠ .var y)
    (equal : θ.apply u = θ.apply v) :
    (u = v ∧ ∀ a d, u ≠ .pair a d) ∨
      ∃ a d a' d', u = .pair a d ∧ v = .pair a' d' ∧ θ.apply a = θ.apply a' ∧
        θ.apply d = θ.apply d' := by
  -- The outermost constructor of a value is that of the term, because no variable hides it.
  cases u with
  | var x => exact absurd rfl (leftKnown x)
  | expr l op r => exact left.elim
  | pair a d =>
    cases v with
    | var y => exact absurd rfl (rightKnown y)
    | expr l op r => exact right.elim
    | pair a' d' =>
      -- A pair has a pair as its value, and the components have the components.
      obtain ⟨first, rest⟩ := Term.pair.inj equal
      exact .inr ⟨a, d, a', d', rfl, rfl, first, rest⟩
    | _ => cases equal
  | _ =>
    cases v with
    | var y => exact absurd rfl (rightKnown y)
    | expr l op r => exact right.elim
    -- Leaves are their own values.
    | _ => cases equal <;> exact .inl ⟨rfl, nofun⟩

namespace State

variable {s middle s' : State} {u v : Term Var} {θ : Assignment}

/--
A state in which two terms are equal, and nothing more than that has been decided.

Its solutions are exactly those of the earlier state that give both terms one value.
-/
structure MostGeneral (s : State) (u v : Term Var) (s' : State) : Prop where
  acyclic : s'.bindings.Acyclic
  nextVar : s'.nextVar = s.nextVar
  solutions : ∀ θ : Assignment,
    θ.Satisfies s'.bindings ↔ θ.Satisfies s.bindings ∧ θ.apply u = θ.apply v

/-- It makes no difference whether terms are walked before they are unified. -/
theorem MostGeneral.of_walk (general : MostGeneral s (s.walk u) (s.walk v) s') :
    MostGeneral s u v s' where
  acyclic := general.acyclic
  nextVar := general.nextVar
  solutions := by
    -- Walking only matters to solutions of the state, and for these it changes no value.
    intro θ
    rw [general.solutions θ]
    refine and_congr_right fun solves => ?_
    -- Under a solution a walked term has the value it had before.
    rw [walk, walk, solves.apply_walk, solves.apply_walk]

/-- The order of two terms makes no difference to the solutions. -/
theorem MostGeneral.symm (general : MostGeneral s u v s') : MostGeneral s v u s' where
  acyclic := general.acyclic
  nextVar := general.nextVar
  solutions := by
    intro θ
    -- Only the equation of the two values is turned around.
    rw [general.solutions θ, eq_comm]

/-- Equal terms leave everything open that was open. -/
theorem mostGeneral_same (acyclic : s.bindings.Acyclic) (t : Term Var) : MostGeneral s t t s where
  acyclic := acyclic
  nextVar := rfl
  -- An equation of a term with itself holds in every solution.
  solutions := fun _ => (and_iff_left rfl).symm

/-- Pairs are equal when both components are, one after the other. -/
theorem MostGeneral.pairs {a d a' d' : Term Var} (first : MostGeneral s a a' middle)
    (rest : MostGeneral middle d d' s') : MostGeneral s (.pair a d) (.pair a' d') s' where
  acyclic := rest.acyclic
  nextVar := rest.nextVar.trans first.nextVar
  solutions := by
    -- The solutions for the first components are narrowed down to those for the others.
    intro θ
    rw [rest.solutions θ, first.solutions θ, and_assoc, Assignment.apply_pair,
      Assignment.apply_pair, Term.pair.injEq]

/--
Binding a free variable to a term is most general, as soon as some solution makes both equal.

A solution has values of finite size, so the term cannot contain the variable it is equal to.
-/
theorem mostGeneral_bind {x : Var} {t : Term Var} (acyclic : s.bindings.Acyclic)
    (free : s.bindings.get? x = none) (apart : t ≠ .var x)
    (settled : ∀ y, t = .var y → s.bindings.get? y = none) (solves : θ.Satisfies s.bindings)
    (equal : θ.value x = θ.apply t) : MostGeneral s (.var x) t (s.bind x t) where
  acyclic := by
    refine acyclic.extend fun y occurs path => ?_
    by_cases unknown : ∃ z, t = .var z
    · -- A free variable leads nowhere, and it is not the one that is bound.
      obtain ⟨z, rfl⟩ := unknown
      obtain rfl : y = z := List.mem_singleton.1 occurs
      rcases path.cases_head with same | ⟨_, ⟨u, bound, _⟩, _⟩
      · exact apart (same ▸ rfl)
      · rw [settled y rfl] at bound
        cases bound
    · -- Back at the variable, its value would be smaller than itself.
      have smaller := θ.size_value_lt occurs fun z same => unknown ⟨z, same⟩
      have larger := solves.size_le path
      rw [equal] at larger
      omega
  nextVar := rfl
  solutions := fun _ => Assignment.satisfies_extend_iff free

/-- Terms whose walks have ended are unified by what they are walked to. -/
theorem unifyWithin_succ {depth : Nat} (left : s.walk? u = some (s.walk u))
    (right : s.walk? v = some (s.walk v)) :
    unifyWithin (depth + 1) s u v = unifyWalked (unifyWithin depth) s (s.walk u) (s.walk v) := by
  -- One step looks at both walks, and goes on with what they ended in.
  rw [unifyWithin, left, right]

/-- A free variable is unified with itself at once. -/
theorem unifyWithin_sameVar {depth : Nat} {x : Var} (left : s.walk u = .var x)
    (right : s.walk v = .var x) (free : s.bindings.get? x = none) :
    unifyWithin (depth + 1) s u v = .singleton s := by
  -- The walks meet in one variable, and there is nothing to bind.
  rw [unifyWithin_succ (Substitution.walk?_of_free left free) (Substitution.walk?_of_free right free),
    left, right, unifyWalked, if_pos rfl]

/-- Terms that are walked to the same leaf are unified at once. -/
theorem unifyWithin_same {depth : Nat} (equal : s.walk u = s.walk v)
    (known : ∀ x, s.walk u ≠ .var x) (plain : (s.walk u).ExprFree)
    (leaf : ∀ a d, s.walk u ≠ .pair a d) : unifyWithin (depth + 1) s u v = .singleton s := by
  rw [unifyWithin_succ (Substitution.walk?_of_known known)
    (Substitution.walk?_of_known fun x walked => known x (equal.trans walked)), ← equal]
  -- Leaves are compared last, when no other branch applies.
  cases walked : s.walk u with
  | var x => exact absurd walked (known x)
  | pair a d => exact absurd walked (leaf a d)
  | expr l op r =>
    rw [walked] at plain
    exact plain.elim
  | _ => simp [unifyWalked, Term.isExpr]

/-- A free variable on the left is bound. -/
theorem unifyWithin_bindLeft {depth : Nat} {x : Var} (walked : s.walk u = .var x)
    (free : s.bindings.get? x = none) (ends : s.walk? v = some (s.walk v))
    (apart : s.walk v ≠ .var x) :
    unifyWithin (depth + 1) s u v = .singleton (s.bind x (s.walk v)) := by
  rw [unifyWithin_succ (Substitution.walk?_of_free walked free) ends, walked]
  -- The left side is bound whatever the right side is, another variable included.
  cases other : s.walk v with
  | var y =>
    have different : x ≠ y := by
      intro same
      exact apart (same ▸ other)
    rw [unifyWalked, if_neg different]
  | _ => rfl

/-- A free variable on the right is bound if the left side is known. -/
theorem unifyWithin_bindRight {depth : Nat} {y : Var} (walked : s.walk v = .var y)
    (free : s.bindings.get? y = none) (known : ∀ x, s.walk u ≠ .var x) :
    unifyWithin (depth + 1) s u v = .singleton (s.bind y (s.walk u)) := by
  rw [unifyWithin_succ (Substitution.walk?_of_known known) (Substitution.walk?_of_free walked free),
    walked]
  -- A variable on the left would have been bound instead.
  cases other : s.walk u with
  | var x => exact absurd other (known x)
  | _ => rfl

/-- Pairs are unified by their components. -/
theorem unifyWithin_pairs {depth : Nat} {a d a' d' : Term Var} (left : s.walk u = .pair a d)
    (right : s.walk v = .pair a' d') :
    unifyWithin (depth + 1) s u v =
      (unifyWithin depth s a a').flatMap fun middle => unifyWithin depth middle d d' := by
  -- A walk that leads to a pair has ended there.
  have leftKnown : ∀ x, s.walk u ≠ .var x := fun x walked => by cases left.symm.trans walked
  have rightKnown : ∀ y, s.walk v ≠ .var y := fun y walked => by cases right.symm.trans walked
  rw [unifyWithin_succ (Substitution.walk?_of_known leftKnown)
    (Substitution.walk?_of_known rightKnown), left, right, unifyWalked]

/--
One step of unification settles two terms with equal values, unless both are pairs.

Settled terms need no further depth, and the components of pairs again have equal values.
-/
theorem settled_or_pairs {U : Vocabulary} (acyclic : s.bindings.Acyclic)
    (covers : U.Covers s.bindings) (left : u ∈ U.terms) (right : v ∈ U.terms)
    (solves : θ.Satisfies s.bindings) (equal : θ.apply u = θ.apply v) :
    (∃ s', (∀ depth, unifyWithin (depth + 1) s u v = .singleton s') ∧
      MostGeneral s u v s' ∧ U.Covers s'.bindings) ∨
    ∃ a d a' d', s.walk u = .pair a d ∧ s.walk v = .pair a' d' ∧
      θ.apply a = θ.apply a' ∧ θ.apply d = θ.apply d' := by
  have leftWalked : s.walk u ∈ U.terms := covers.walk_mem left
  have rightWalked : s.walk v ∈ U.terms := covers.walk_mem right
  have walkedEqual : θ.apply (s.walk u) = θ.apply (s.walk v) := by
    rw [walk, walk, solves.apply_walk, solves.apply_walk, equal]
  -- What a walk ends in is a variable without a binding, or no variable at all.
  by_cases leftUnknown : ∃ x, s.walk u = .var x
  · -- An unknown left side is bound to the other side, unless both are the same variable.
    obtain ⟨x, walked⟩ := leftUnknown
    have free := Substitution.get?_eq_none_of_walk acyclic walked
    by_cases same : s.walk v = .var x
    · refine .inl ⟨s, fun depth => unifyWithin_sameVar walked same free, MostGeneral.of_walk ?_,
        covers⟩
      rw [walked, same]
      exact mostGeneral_same acyclic _
    · have ends := acyclic.settled.walk?_eq_some v
      refine .inl ⟨s.bind x (s.walk v), fun depth => unifyWithin_bindLeft walked free ends same,
        MostGeneral.of_walk ?_, covers.extend x rightWalked⟩
      rw [walked] at walkedEqual ⊢
      exact mostGeneral_bind acyclic free same
        (fun y => Substitution.get?_eq_none_of_walk acyclic) solves walkedEqual
  have leftKnown : ∀ x, s.walk u ≠ .var x := fun x walked => leftUnknown ⟨x, walked⟩
  -- Only the right side is unknown, and this is the same with the sides exchanged.
  by_cases rightUnknown : ∃ y, s.walk v = .var y
  · obtain ⟨y, walked⟩ := rightUnknown
    have free := Substitution.get?_eq_none_of_walk acyclic walked
    refine .inl ⟨s.bind y (s.walk u), fun depth => unifyWithin_bindRight walked free leftKnown,
      MostGeneral.of_walk ?_, covers.extend y leftWalked⟩
    rw [walked] at walkedEqual ⊢
    exact (mostGeneral_bind acyclic free (leftKnown y)
      (fun x => Substitution.get?_eq_none_of_walk acyclic) solves walkedEqual.symm).symm
  have rightKnown : ∀ y, s.walk v ≠ .var y := fun y walked => rightUnknown ⟨y, walked⟩
  -- Two known terms with one value are the same leaf, or both are pairs.
  have leftPlain := U.exprFree _ leftWalked
  have rightPlain := U.exprFree _ rightWalked
  rcases Assignment.eq_or_pairs leftPlain rightPlain leftKnown rightKnown walkedEqual with
    ⟨same, leaf⟩ | pairs
  · -- The same leaf on both sides needs no binding.
    refine .inl ⟨s, fun depth => unifyWithin_same same leftKnown leftPlain leaf,
      MostGeneral.of_walk ?_, covers⟩
    rw [same]
    exact mostGeneral_same acyclic _
  · exact .inr pairs

/--
Unification finds the most general state as soon as there is a solution, at every sufficient depth.

The induction is on how many terms have values up to the size of the unified one: going into a pair
makes the value smaller, and no binding made on the way changes a value of the solution.
-/
theorem exists_mostGeneral {U : Vocabulary} {count : Nat} (acyclic : s.bindings.Acyclic)
    (covers : U.Covers s.bindings) (left : u ∈ U.terms) (right : v ∈ U.terms)
    (solves : θ.Satisfies s.bindings) (equal : θ.apply u = θ.apply v)
    (counted : U.countUpTo θ (θ.apply u).size ≤ count) :
    ∃ s', (∀ depth, count ≤ depth → unifyWithin depth s u v = .singleton s') ∧
      MostGeneral s u v s' ∧ U.Covers s'.bindings := by
  induction count generalizing s u v with
  | zero =>
    -- The term itself is counted, so there is at least one.
    have positive := Vocabulary.countUpTo_lt left (Nat.sub_lt (θ.apply u).one_le_size Nat.one_pos)
    omega
  | succ count ih =>
    -- Every depth in question leaves one step to take, and the rest for the components.
    have oneStep : ∀ {found : State}, (∀ depth, count ≤ depth →
        unifyWithin (depth + 1) s u v = .singleton found) →
        ∀ depth, count + 1 ≤ depth → unifyWithin depth s u v = .singleton found := by
      intro found unified depth deep
      obtain ⟨rest, rfl⟩ : ∃ rest, depth = rest + 1 := ⟨depth - 1, by omega⟩
      exact unified rest (by omega)
    rcases settled_or_pairs acyclic covers left right solves equal with
      ⟨s', unified, general, covered⟩ | ⟨a, d, a', d', leftPair, rightPair, firstEqual, restEqual⟩
    · -- A settled pair of terms is done after one step.
      exact ⟨s', oneStep fun depth _ => unified depth, general, covered⟩
    · have leftWalked : s.walk u ∈ U.terms := covers.walk_mem left
      have rightWalked : s.walk v ∈ U.terms := covers.walk_mem right
      have value : θ.apply (s.walk u) = θ.apply u := solves.apply_walk u
      -- Both components have smaller values than the pair, so fewer terms count for them.
      have fewer : ∀ part, (θ.apply part).size < (θ.apply (s.walk u)).size →
          U.countUpTo θ (θ.apply part).size ≤ count := by
        intro part smaller
        have strictly := Vocabulary.countUpTo_lt leftWalked smaller
        rw [value] at strictly
        omega
      have firstSmaller : (θ.apply a).size < (θ.apply (s.walk u)).size := by
        simp only [leftPair, Assignment.apply_pair, Term.size]
        omega
      have restSmaller : (θ.apply d).size < (θ.apply (s.walk u)).size := by
        simp only [leftPair, Assignment.apply_pair, Term.size]
        omega
      rw [leftPair] at leftWalked
      rw [rightPair] at rightWalked
      obtain ⟨firstLeft, restLeft⟩ := U.components a d leftWalked
      obtain ⟨firstRight, restRight⟩ := U.components a' d' rightWalked
      obtain ⟨middle, firstUnified, first, between⟩ :=
        ih acyclic covers firstLeft firstRight solves firstEqual (fewer a firstSmaller)
      -- The solution is still one after the first components, because nothing more was decided.
      obtain ⟨s', restUnified, rest, covered⟩ :=
        ih first.acyclic between restLeft restRight ((first.solutions θ).2 ⟨solves, firstEqual⟩)
          restEqual (fewer d restSmaller)
      refine ⟨s', oneStep fun depth deep => ?_, MostGeneral.of_walk ?_, covered⟩
      · rw [unifyWithin_pairs leftPair rightPair, firstUnified depth deep,
          Stream.flatMap_singleton, restUnified depth deep]
      · rw [leftPair, rightPair]
        exact first.pairs rest

/-- Without expressions to begin with, unification makes no binding to an expression. -/
theorem Unifies.exprFree (unified : Unifies s u v s') (plain : s.bindings.ExprFree)
    (left : u.ExprFree) (right : v.ExprFree) : s'.bindings.ExprFree := by
  -- Walked and resolved terms are without expressions too, so no rule for expressions applies.
  have walked : ∀ {s : State} {t : Term Var}, s.bindings.ExprFree → t.ExprFree →
      (s.walk t).ExprFree :=
    fun plain free => Substitution.ExprFree.walk plain free
  have resolved : ∀ {s : State} {t : Term Var}, s.bindings.ExprFree → t.ExprFree →
      (s.walkStar (s.walk t)).ExprFree :=
    fun plain free => Substitution.ExprFree.walkStar plain (walked plain free)
  induction unified with
  | same _ => exact plain
  -- The bound term is one of the two walked ones.
  | bindLeft _ _ _ => exact plain.extend (walked plain right)
  | bindRight _ _ _ => exact plain.extend (walked plain left)
  | pairs leftPair rightPair _ _ first rest =>
    have leftParts := walked plain left
    have rightParts := walked plain right
    rw [leftPair] at leftParts
    rw [rightPair] at rightParts
    exact rest (first plain leftParts.1 rightParts.1) leftParts.2 rightParts.2
  | exprs leftExpr _ _ _ _ _ =>
    have impossible := resolved plain left
    rw [leftExpr] at impossible
    exact impossible.elim
  | solveLeft leftExpr _ _ _ =>
    have impossible := resolved plain left
    rw [leftExpr] at impossible
    exact impossible.elim
  | solveRight rightExpr _ _ _ =>
    have impossible := resolved plain right
    rw [rightExpr] at impossible
    exact impossible.elim
  | values _ rest => exact rest plain (resolved plain left) (resolved plain right)

/-- A state found without a cycle has a solution, and in it both terms have one value. -/
theorem Unifies.exists_solution (unified : Unifies s u v s') (plain : s.bindings.ExprFree)
    (left : u.ExprFree) (right : v.ExprFree) (acyclic : s'.bindings.Acyclic) :
    ∃ θ : Assignment, θ.Satisfies s.bindings ∧ θ.apply u = θ.apply v := by
  -- The values that the found state gives by itself are such a solution.
  have plainFound := unified.exprFree plain left right
  have solves := Assignment.ofSubstitution_satisfies acyclic plainFound
  refine ⟨.ofSubstitution s'.bindings plainFound, fun x t bound => ?_, ?_⟩
  · exact solves x t (unified.extends x t bound)
  · rw [Assignment.ofSubstitution_apply left, Assignment.ofSubstitution_apply right,
      unified.walkStar_eq acyclic (.refl _)]

/-- As many steps as there are nodes in all terms are within the depth of unification. -/
theorem weight_le_depthBound (s : State) (u v : Term Var) :
    s.bindings.weight + u.size + v.size ≤ s.depthBound u v := by
  -- The bound is the cube of a larger number.
  unfold depthBound
  generalize s.bindings.weight + u.size + v.size = nodes
  calc nodes ≤ (nodes + 2) * 1 := by omega
    _ ≤ (nodes + 2) * (nodes + 2) := Nat.mul_le_mul_left _ (by omega)
    _ ≤ (nodes + 2) * (nodes + 2) * (nodes + 2) := Nat.le_mul_of_pos_right _ (by omega)

/-- Terms with a common value are unified in one most general state, whatever more depth is given. -/
theorem unify_eq_singleton (acyclic : s.bindings.Acyclic) (plain : s.bindings.ExprFree)
    (left : u.ExprFree) (right : v.ExprFree) (solves : θ.Satisfies s.bindings)
    (equal : θ.apply u = θ.apply v) :
    ∃ s', s.unify u v = .singleton s' ∧
      (∀ depth, s.depthBound u v ≤ depth → unifyWithin depth s u v = .singleton s') ∧
      MostGeneral s u v s' := by
  -- The parts of all terms at hand are a vocabulary, with at most one term for each node.
  obtain ⟨s', unified, general, _⟩ :=
    exists_mostGeneral (U := .ofTerms s.bindings u v plain left right) acyclic
      Vocabulary.ofTerms_covers Vocabulary.left_mem_ofTerms Vocabulary.right_mem_ofTerms solves
      equal (Vocabulary.countUpTo_ofTerms_le _)
  have enough := weight_le_depthBound s u v
  exact ⟨s', unified _ enough, fun depth deep => unified depth (enough.trans deep), general⟩

/--
Without expressions, unification computes a most general unifier.

It finds one state, with exactly the solutions that make both terms equal, if there are any; it finds
nothing only if there are none; and a state found without a cycle has solutions.
-/
theorem unify_mostGeneral {s : State} {u v : Term Var} (acyclic : s.bindings.Acyclic)
    (plain : s.bindings.ExprFree) (left : u.ExprFree) (right : v.ExprFree) :
    ((∃ θ : Assignment, θ.Satisfies s.bindings ∧ θ.apply u = θ.apply v) →
      ∃ s', s.unify u v = .singleton s' ∧
        (∀ depth, s.depthBound u v ≤ depth → unifyWithin depth s u v = .singleton s') ∧
        MostGeneral s u v s') ∧
    (s.unify u v = .empty →
      ∀ θ : Assignment, θ.Satisfies s.bindings → θ.apply u ≠ θ.apply v) ∧
    ∀ s', Stream.Reached Stream.noJobs s' (s.unify u v) → s'.bindings.Acyclic →
      ∃ θ : Assignment, θ.Satisfies s.bindings ∧ θ.apply u = θ.apply v := by
  refine ⟨fun solvable => ?_, fun nothing θ solves equal => ?_, fun s' reached found => ?_⟩
  · obtain ⟨θ, solves, equal⟩ := solvable
    exact unify_eq_singleton acyclic plain left right solves equal
  · -- A common value would have given a state.
    obtain ⟨s', unified, _⟩ := unify_eq_singleton acyclic plain left right solves equal
    rw [nothing] at unified
    cases unified
  · exact (unifies_of_reached reached).exists_solution plain left right found

/-- A pair met through a bound variable gives its component a value, and a later variable that too. -/
theorem unify_mostGeneral_five :
    (bind ⟨.empty, 3⟩ ⟨0⟩ (.pair (.var ⟨1⟩) .unit)).bindings.Acyclic ∧
    (bind ⟨.empty, 3⟩ ⟨0⟩ (.pair (.var ⟨1⟩) .unit)).bindings.ExprFree ∧
    (∃ θ : Assignment, θ.Satisfies (bind ⟨.empty, 3⟩ ⟨0⟩ (.pair (.var ⟨1⟩) .unit)).bindings ∧
      θ.apply (.pair (.var ⟨0⟩) (.var ⟨2⟩)) =
        θ.apply (.pair (.pair (.int 5) .unit) (.var ⟨1⟩))) ∧
    MostGeneral (bind ⟨.empty, 3⟩ ⟨0⟩ (.pair (.var ⟨1⟩) .unit))
      (.pair (.var ⟨0⟩) (.var ⟨2⟩)) (.pair (.pair (.int 5) .unit) (.var ⟨1⟩))
      (((bind ⟨.empty, 3⟩ ⟨0⟩ (.pair (.var ⟨1⟩) .unit)).bind ⟨1⟩ (.int 5)).bind ⟨2⟩ (.int 5)) := by
  -- The one binding leads to a variable with a higher number, and that one is free.
  have acyclic : (bind ⟨.empty, 3⟩ ⟨0⟩ (.pair (.var ⟨1⟩) .unit)).bindings.Acyclic := by
    refine Substitution.acyclic_of_rank (fun x => 1 - x.id) fun x y depends => ?_
    obtain ⟨t, bound, occurs⟩ := depends
    rw [bind, Substitution.get?_extend] at bound
    split at bound
    · obtain rfl := Option.some.inj bound
      simp_all [Term.vars]
    · cases bound
  -- Neither the bound term nor the two given ones have expressions.
  have plain : (bind ⟨.empty, 3⟩ ⟨0⟩ (.pair (.var ⟨1⟩) .unit)).bindings.ExprFree :=
    Substitution.exprFree_empty.extend ⟨trivial, trivial⟩
  have result := unify_mostGeneral (u := .pair (.var ⟨0⟩) (.var ⟨2⟩))
    (v := .pair (.pair (.int 5) .unit) (.var ⟨1⟩)) acyclic plain ⟨trivial, trivial⟩
    ⟨⟨trivial, trivial⟩, trivial⟩
  -- The state found has a solution, and so the one state of the unification is most general.
  have reached := Stream.reached_noJobs_iff.2 (show
    ((bind ⟨.empty, 3⟩ ⟨0⟩ (.pair (.var ⟨1⟩) .unit)).bind ⟨1⟩ (.int 5)).bind ⟨2⟩ (.int 5) ∈
      ((bind ⟨.empty, 3⟩ ⟨0⟩ (.pair (.var ⟨1⟩) .unit)).unify (.pair (.var ⟨0⟩) (.var ⟨2⟩))
        (.pair (.pair (.int 5) .unit) (.var ⟨1⟩))).members by decide)
  have found := (acyclic.extend_of_isAtom (x := ⟨1⟩) (t := .int 5) rfl).extend_of_isAtom (x := ⟨2⟩)
    (t := .int 5) rfl
  have solvable := result.2.2 _ reached found
  obtain ⟨s', unified, _, general⟩ := result.1 solvable
  rw [unified] at reached
  obtain rfl := List.mem_singleton.1 (Stream.reached_noJobs_iff.1 reached)
  exact ⟨acyclic, plain, solvable, general⟩

end State

end Relational
