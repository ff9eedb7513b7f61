import Relational.Proofs.State.Orientation
import Relational.Proofs.Substitution.Refinement

/-! Stability: terms that already stand for the same are unified without any change. -/

namespace Relational

namespace Term

variable {ν : Type}

/-- How many nodes deep a term is below its root. -/
def height : Term ν → Nat
  | .pair a d => max a.height d.height + 1
  | .expr l _ r => max l.height r.height + 1
  | _ => 0

/-- A term is less deep than it has nodes. -/
theorem height_lt_size (t : Term ν) : t.height < t.size := by
  -- Of two parts only the deeper one counts for the height, and both for the size.
  induction t with
  | pair a d first rest => simp only [height, size]; omega
  | expr l op r left right => simp only [height, size]; omega
  | _ => exact Nat.one_pos

/-- An atom has nothing below its root. -/
theorem height_of_isAtom {t : Term ν} (atom : t.isAtom = true) : t.height = 0 := by
  cases t with
  -- What has parts is no atom.
  | pair a d => cases atom
  | expr l op r => cases atom
  | _ => rfl

/-- A resolved term is at most as much deeper as the terms that come in for its variables. -/
theorem height_resolve_le {f : Var → Term Var} {bound : Nat} {t : Term Var}
    (values : ∀ x ∈ t.vars, (f x).height ≤ bound) : (t.resolve f).height ≤ t.height + bound := by
  induction t with
  | var x =>
    -- By induction on the term: a variable is no deeper than what comes in for it.
    have here := values x (List.mem_singleton.2 rfl)
    simp only [resolve, height]
    omega
  | pair a d first rest =>
    have left := first fun x occurs => values x (List.mem_append_left _ occurs)
    have right := rest fun x occurs => values x (List.mem_append_right _ occurs)
    simp only [resolve, height]
    omega
  | expr l op r first rest =>
    have left := first fun x occurs => values x (List.mem_append_left _ occurs)
    have right := rest fun x occurs => values x (List.mem_append_right _ occurs)
    rw [resolve, evaluated]
    cases value : op.evaluate (l.resolve f) (r.resolve f) with
    | ok result =>
      -- A value is an atom, however deep its operands were.
      rw [height_of_isAtom (Operator.evaluate_eq_ok_iff.1 value).isAtom.2.2]
      exact Nat.zero_le _
    | error e =>
      simp only [height]
      omega
  | _ => exact Nat.zero_le _

end Term

namespace Substitution

variable {s : Substitution} {x : Var} {t : Term Var}

/-- A bound term has no more nodes than all bound terms together. -/
theorem size_le_weight_of_bound (bound : s.get? x = some t) : t.size ≤ s.weight := by
  have member := mem_of_findBinding bound
  rw [s.weighed]
  -- The weight is a sum with the size of the term as one of its summands.
  generalize s.entries = entries at member ⊢
  induction entries with
  | nil => cases member
  | cons first rest ih =>
    simp only [bindingWeight]
    rcases List.mem_cons.1 member with same | later
    · rw [← same]
      exact Nat.le_add_right _ _
    · exact (ih later).trans (Nat.le_add_left _ _)

/-- Each hop of resolving a term adds at most the height of one bound term. -/
theorem height_walkStar_le (s : Substitution) (t : Term Var) :
    (s.walkStar t).height ≤ t.height + s.size * s.weight := by
  unfold walkStar
  induction s.size generalizing t with
  -- By induction on the hops; without any, only variables are left in place of variables.
  | zero => exact Term.height_resolve_le fun x _ => Nat.zero_le _
  | succ hops ih =>
    refine Term.height_resolve_le fun x _ => ?_
    rw [Nat.succ_mul]
    cases bound : s.get? x with
    | none => exact Nat.zero_le _
    | some u =>
      -- The bound term is one of those that the weight counts the nodes of.
      have deep := ih u
      have lower := u.height_lt_size
      have light := size_le_weight_of_bound bound
      dsimp only
      omega

end Substitution

namespace State

variable {s : State} {u v : Term Var} {depth : Nat}

/-- What terms of an acyclic state are walked to stands for the same as they do. -/
theorem walkStar_walk_self (acyclic : s.bindings.Acyclic) (t : Term Var) :
    s.walkStar (s.walk t) = s.walkStar t :=
  -- The state's own bindings are kept by itself.
  Substitution.walkStar_walk acyclic (.refl _) t

/-- A term that is walked to a variable stands for that variable, which is free. -/
theorem walkStar_eq_var (acyclic : s.bindings.Acyclic) {t : Term Var} {x : Var}
    (walked : s.walk t = .var x) : s.walkStar t = .var x := by
  -- The walk has ended at the variable, so nothing is bound to it.
  have free := Substitution.get?_eq_none_of_walk acyclic walked
  rw [← walkStar_walk_self acyclic, walked]
  exact Substitution.walkStar_of_free free

/-- An expression that does not stand for one stands for an atom. -/
theorem isAtom_walkStar (acyclic : s.bindings.Acyclic) {t : Term Var}
    (expression : (s.walk t).isExpr = true) (valued : (s.walkStar t).isExpr = false) :
    (s.walkStar t).isAtom = true := by
  rw [← walkStar_walk_self acyclic] at valued ⊢
  -- Walking leads to the expression, and its value is the only other thing it can stand for.
  exact Substitution.isAtom_walkStar_of_isExpr expression valued

/-- A term that stands for a variable is walked to that variable. -/
theorem walk_eq_var (acyclic : s.bindings.Acyclic) {t : Term Var} {x : Var}
    (stands : s.walkStar t = .var x) : s.walk t = .var x := by
  cases walked : s.walk t with
  | var y => rw [← stands, walkStar_eq_var acyclic walked]
  | expr l op r =>
    -- An expression stands for a value or for an expression.
    have atom := isAtom_walkStar acyclic (by rw [walked]; rfl) (by rw [stands]; rfl)
    rw [stands] at atom
    cases atom
  | _ =>
    rw [← walkStar_walk_self acyclic, walked, walkStar, Substitution.walkStar_eq_resolve] at stands
    cases stands

/-- Terms that are neither variables nor expressions stand for the same if they are one leaf or two pairs. -/
theorem eq_or_pairs_of_walkStar_eq (leftKnown : ∀ x, u ≠ .var x) (rightKnown : ∀ y, v ≠ .var y)
    (plain : ¬ (u.isExpr = true ∨ v.isExpr = true)) (same : s.walkStar u = s.walkStar v) :
    (u = v ∧ u.ExprFree ∧ ∀ a d, u ≠ .pair a d) ∨
      ∃ a d a' d', u = .pair a d ∧ v = .pair a' d' ∧ s.walkStar a = s.walkStar a' ∧
        s.walkStar d = s.walkStar d' := by
  -- Resolving keeps the outermost constructor of such terms.
  rw [walkStar, walkStar, Substitution.walkStar_eq_resolve,
    Substitution.walkStar_eq_resolve s.bindings v] at same
  cases u with
  | var x => exact absurd rfl (leftKnown x)
  | expr l op r => exact absurd (.inl rfl) plain
  | pair a d =>
    cases v with
    | var y => exact absurd rfl (rightKnown y)
    | expr l op r => exact absurd (.inr rfl) plain
    | pair a' d' =>
      -- Both stand for a pair of what the components stand for.
      obtain ⟨first, rest⟩ := Term.pair.inj same
      rw [← Substitution.walkStar_eq_resolve, ← Substitution.walkStar_eq_resolve] at first rest
      exact .inr ⟨a, d, a', d', rfl, rfl, first, rest⟩
    | _ => cases same
  | _ =>
    cases v with
    | var y => exact absurd rfl (rightKnown y)
    | expr l op r => exact absurd (.inr rfl) plain
    | _ => cases same <;> exact .inl ⟨rfl, trivial, nofun⟩

/-- An atom is unified with itself at once. -/
theorem unifyWithin_of_isAtom {t : Term Var} (atom : t.isAtom = true) :
    unifyWithin (depth + 1) s t t = .singleton s := by
  have known : ∀ x, t ≠ .var x := by
    rintro x rfl
    cases atom
  have walked : s.walk t = t := Substitution.walk_of_known s.bindings known
  -- An atom is no variable, no expression and no pair, so it is compared as it is.
  refine unifyWithin_same rfl ?_ ?_ ?_
  all_goals rw [walked]
  · exact known
  · cases t with
    | expr l op r => cases atom
    | pair a d => cases atom
    | _ => trivial
  · rintro a d rfl
    cases atom

/--
Terms that stand for the same are unified without a change, at every depth beyond that of their value.

The induction is on the depth: components of pairs stand for the components of the value, and operands
of an expression without value are resolved already.
-/
theorem unifyWithin_of_walkStar_eq (acyclic : s.bindings.Acyclic)
    (same : s.walkStar u = s.walkStar v) (deep : (s.walkStar u).height + 2 ≤ depth) :
    unifyWithin depth s u v = .singleton s := by
  induction depth generalizing u v with
  | zero => omega
  | succ depth ih =>
    have left := walkStar_walk_self acyclic u
    have right := walkStar_walk_self acyclic v
    by_cases leftUnknown : ∃ x, s.walk u = .var x
    · -- A free variable stands for itself only, so both sides are walked to it.
      obtain ⟨x, walked⟩ := leftUnknown
      have stands := walkStar_eq_var acyclic walked
      exact unifyWithin_sameVar walked (walk_eq_var acyclic (same.symm.trans stands))
        (Substitution.get?_eq_none_of_walk acyclic walked)
    -- With no free variable on the left there is none on the right, since both stand for the same.
    have leftKnown : ∀ x, s.walk u ≠ .var x := fun x walked => leftUnknown ⟨x, walked⟩
    have rightKnown : ∀ y, s.walk v ≠ .var y := fun y walked =>
      leftKnown y (walk_eq_var acyclic (same.trans (walkStar_eq_var acyclic walked)))
    by_cases involved : (s.walk u).isExpr = true ∨ (s.walk v).isExpr = true
    · have resolves : s.Resolves u v := ⟨leftKnown, rightKnown, involved⟩
      by_cases stuck : (s.walkStar u).isExpr = true
      · -- Without a value, both sides are one expression, and its operands are compared with themselves.
        obtain ⟨l, op, r, stands⟩ := Term.exists_expr_of_isExpr stuck
        have resolved : s.bindings.Resolved (s.walkStar u) := acyclic.resolved_walkStar u
        rw [stands] at resolved
        obtain ⟨lhs, rhs⟩ := resolved.operands
        have lhsSame : s.walkStar l = l := lhs.walkStar_eq
        have rhsSame : s.walkStar r = r := rhs.walkStar_eq
        rw [stands, Term.height] at deep
        have first := ih (u := l) (v := l) rfl (by rw [lhsSame]; omega)
        have rest := ih (u := r) (v := r) rfl (by rw [rhsSame]; omega)
        have step : unifyTurned false (depth + 1) s u v = _ :=
          unifyTurned_exprs false resolves (left.trans stands) (right.trans (same.symm.trans stands))
        simpa only [unifyTurned, if_true, first, Stream.flatMap_singleton, rest] using step
      · -- With a value, the two sides are the same atom.
        have valued : (s.walkStar u).isExpr = false := by simpa using stuck
        have atom : (s.walkStar u).isAtom = true := by
          rcases involved with expression | expression
          · exact isAtom_walkStar acyclic expression valued
          · rw [same] at valued ⊢
            exact isAtom_walkStar acyclic expression valued
        have step : unifyTurned false (depth + 1) s u v = _ :=
          unifyTurned_values false resolves (by rw [left, valued]) (by rw [right, ← same, valued])
        obtain ⟨more, rfl⟩ : ∃ more, depth = more + 1 := ⟨depth - 1, by omega⟩
        rw [left, right, ← same] at step
        exact step.trans (unifyWithin_of_isAtom atom)
    · rcases eq_or_pairs_of_walkStar_eq leftKnown rightKnown involved
        (left.trans (same.trans right.symm)) with
        ⟨equal, plain, leaf⟩ | ⟨a, d, a', d', leftPair, rightPair, first, rest⟩
      · exact unifyWithin_same equal leftKnown plain leaf
      · -- Both components stand for the same, so neither of them changes the state.
        rw [← left, leftPair, walkStar, Substitution.walkStar_pair, Term.height] at deep
        have firstSame := ih first (by rw [walkStar]; omega)
        have restSame := ih rest (by rw [walkStar]; omega)
        rw [unifyWithin_pairs leftPair rightPair, firstSame, Stream.flatMap_singleton, restSame]

/-- The depth of a unification is enough for the value of either side. -/
theorem height_le_depthBound (s : State) (u v : Term Var) :
    (s.walkStar u).height + 2 ≤ s.depthBound u v := by
  -- Each bound term is entered at most once on the way to a leaf of the value.
  have deep := s.bindings.height_walkStar_le u
  have lower := u.height_lt_size
  have few := Nat.mul_le_mul_right s.bindings.weight s.bindings.size_le_weight
  have node := v.one_le_size
  unfold depthBound
  -- With `n` for all nodes and two more, the height is less than `n + n * n`, and `n` is at least two.
  generalize sum : s.bindings.weight + u.size + v.size + 2 = n
  have square : s.bindings.weight * s.bindings.weight ≤ n * n :=
    Nat.mul_le_mul (by omega) (by omega)
  have linear : n * 1 ≤ n * n := Nat.mul_le_mul_left n (by omega)
  have cube : n * n * 2 ≤ n * n * n := Nat.mul_le_mul_left _ (by omega)
  show (s.bindings.walkStar u).height + 2 ≤ n * n * n
  omega

/-- Terms that stand for the same are unified without a change. -/
theorem unify_of_walkStar_eq (acyclic : s.bindings.Acyclic) (same : s.walkStar u = s.walkStar v)
    (deep : s.depthBound u v ≤ depth) : unifyWithin depth s u v = .singleton s :=
  unifyWithin_of_walkStar_eq acyclic same ((height_le_depthBound s u v).trans deep)

end State

end Relational
