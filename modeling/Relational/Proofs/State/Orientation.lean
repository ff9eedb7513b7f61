import Relational.Proofs.State.MostGeneral

/-! Unification either way round: one equation for every case, whichever of two terms comes first. -/

namespace Relational

/-- An expression has two operands and an operator. -/
theorem Term.exists_expr_of_isExpr {t : Term Var} (expression : t.isExpr = true) :
    ∃ l op r, t = .expr l op r := by
  cases t with
  | expr l op r => exact ⟨l, op, r, rfl⟩
  | _ => cases expression

namespace State

variable {s : State} {u v : Term Var} {x y : Var} {depth : Nat}

/-- Unification of two terms in the order given, or in the other one. -/
def unifyTurned : (turned : Bool) → (depth : Nat) → Unifier
  | false, depth, s, u, v => unifyWithin depth s u v
  | true, depth, s, u, v => unifyWithin depth s v u

/-- Turning both the terms and the order changes nothing. -/
theorem unifyTurned_not (turned : Bool) (depth : Nat) (s : State) (u v : Term Var) :
    unifyTurned (!turned) depth s v u = unifyTurned turned depth s u v := by
  -- Two turns put everything back where it was.
  cases turned <;> rfl

/-- A free variable is equal to itself. -/
theorem unifyTurned_sameVar (turned : Bool) (left : s.walk u = .var x) (right : s.walk v = .var x)
    (free : s.bindings.get? x = none) : unifyTurned turned (depth + 1) s u v = .singleton s := by
  cases turned with
  -- The order only decides which of the two walks is named first.
  | false => exact unifyWithin_sameVar left right free
  | true => exact unifyWithin_sameVar right left free

/-- Of two free variables the one that comes first is bound to the other. -/
theorem unifyTurned_vars (turned : Bool) (left : s.walk u = .var x) (right : s.walk v = .var y)
    (free : s.bindings.get? x = none) (target : s.bindings.get? y = none) (apart : x ≠ y) :
    unifyTurned turned (depth + 1) s u v =
      .singleton (if turned then s.bind y (.var x) else s.bind x (.var y)) := by
  have leftEnds := Substitution.walk?_of_free left free
  have rightEnds := Substitution.walk?_of_free right target
  -- Whichever variable comes first, the other one is what it is bound to.
  cases turned with
  | false =>
    have bound : unifyWithin (depth + 1) s u v = _ :=
      unifyWithin_bindLeft left free rightEnds (by rw [right]; simpa using apart.symm)
    rwa [right] at bound
  | true =>
    have bound : unifyWithin (depth + 1) s v u = _ :=
      unifyWithin_bindLeft right target leftEnds (by rw [left]; simpa using apart)
    rwa [left] at bound

/-- A free variable is bound to a known term on its right, in either order. -/
theorem unifyTurned_knownRight (turned : Bool) (left : s.walk u = .var x)
    (free : s.bindings.get? x = none) (known : ∀ y, s.walk v ≠ .var y) :
    unifyTurned turned (depth + 1) s u v = .singleton (s.bind x (s.walk v)) := by
  cases turned with
  -- In one order the variable is met first and in the other one last, and it is bound both times.
  | false => exact unifyWithin_bindLeft left free (Substitution.walk?_of_known known) (known x)
  | true => exact unifyWithin_bindRight left free known

/-- Pairs are unified by their components, all of them in the same order. -/
theorem unifyTurned_pairs (turned : Bool) {a d a' d' : Term Var} (left : s.walk u = .pair a d)
    (right : s.walk v = .pair a' d') :
    unifyTurned turned (depth + 1) s u v =
      (unifyTurned turned depth s a a').flatMap fun middle =>
        unifyTurned turned depth middle d d' := by
  cases turned with
  -- Turning exchanges the sides of all the components at once.
  | false => exact unifyWithin_pairs left right
  | true => exact unifyWithin_pairs right left

/-- Terms other than unknowns and two pairs are compared, after they are resolved if need be. -/
theorem unifyWithin_known (left : ∀ x, s.walk u ≠ .var x) (right : ∀ y, s.walk v ≠ .var y)
    (notPairs : ∀ a d a' d', s.walk u = .pair a d → s.walk v ≠ .pair a' d') :
    unifyWithin (depth + 1) s u v =
      if (s.walk u).isExpr || (s.walk v).isExpr then
        unifyResolved (unifyWithin depth) s (s.walkStar (s.walk u)) (s.walkStar (s.walk v))
      else if s.walk u = s.walk v then .singleton s
      else .empty := by
  rw [unifyWithin_succ (Substitution.walk?_of_known left) (Substitution.walk?_of_known right)]
  -- The first four branches are for unknowns and for two pairs.
  unfold unifyWalked
  split
  · rename_i x _ walked _
    exact absurd walked (left x)
  · rename_i x walked _
    exact absurd walked (left x)
  · rename_i y walked _
    exact absurd walked (right y)
  · rename_i a d a' d' leftPair rightPair
    exact absurd rightPair (notPairs a d a' d' leftPair)
  · rfl

/-- Two terms have to be resolved: neither is an unknown to be bound, and one is an expression. -/
structure Resolves (s : State) (u v : Term Var) : Prop where
  left : ∀ x, s.walk u ≠ .var x
  right : ∀ y, s.walk v ≠ .var y
  involved : (s.walk u).isExpr = true ∨ (s.walk v).isExpr = true

/-- Which of the two is the expression does not matter. -/
theorem Resolves.symm (resolves : s.Resolves u v) : s.Resolves v u :=
  -- What is asked of the two sides is the same.
  ⟨resolves.right, resolves.left, resolves.involved.symm⟩

/-- Terms that have to be resolved are compared by what they stand for. -/
theorem unifyWithin_resolved (resolves : s.Resolves u v) :
    unifyWithin (depth + 1) s u v =
      unifyResolved (unifyWithin depth) s (s.walkStar (s.walk u)) (s.walkStar (s.walk v)) := by
  -- An expression on one side rules out two pairs.
  have involved := resolves.involved
  have notPairs : ∀ a d a' d', s.walk u = .pair a d → s.walk v ≠ .pair a' d' := by
    intro a d a' d' leftPair rightPair
    simp [leftPair, rightPair, Term.isExpr] at involved
  rw [unifyWithin_known resolves.left resolves.right notPairs, if_pos (by simpa using involved)]

/-- Expressions of one operator are unified by their operands, and those of two not at all. -/
theorem unifyTurned_exprs (turned : Bool) {l r l' r' : Term Var} {op op' : Operator}
    (resolves : s.Resolves u v) (left : s.walkStar (s.walk u) = .expr l op r)
    (right : s.walkStar (s.walk v) = .expr l' op' r') :
    unifyTurned turned (depth + 1) s u v =
      if op = op' then
        (unifyTurned turned depth s l l').flatMap fun middle => unifyTurned turned depth middle r r'
      else .empty := by
  cases turned with
  -- The operators are compared the other way round, too, when the terms are turned.
  | false => simp [unifyTurned, unifyWithin_resolved resolves, left, right, unifyResolved]
  | true =>
    simp [unifyTurned, unifyWithin_resolved resolves.symm, left, right, unifyResolved, eq_comm]

/-- An expression is solved for what the other term stands for, in either order. -/
theorem unifyTurned_solve (turned : Bool) {l r : Term Var} {op : Operator}
    (resolves : s.Resolves u v) (left : s.walkStar (s.walk u) = .expr l op r)
    (right : (s.walkStar (s.walk v)).isExpr = false) :
    unifyTurned turned (depth + 1) s u v =
      solve (unifyWithin depth) s l op r (s.walkStar (s.walk v)) := by
  generalize resolved : s.walkStar (s.walk v) = result at right
  -- The branches for an expression on the left and on the right do the same.
  cases turned with
  | false =>
    rw [unifyTurned, unifyWithin_resolved resolves, left, resolved]
    cases result with
    | expr l' op' r' => cases right
    | _ => rfl
  | true =>
    rw [unifyTurned, unifyWithin_resolved resolves.symm, left, resolved]
    cases result with
    | expr l' op' r' => cases right
    | _ => rfl

/-- Expressions that are resolved to something else are unified by what they stand for. -/
theorem unifyTurned_values (turned : Bool) (resolves : s.Resolves u v)
    (left : (s.walkStar (s.walk u)).isExpr = false)
    (right : (s.walkStar (s.walk v)).isExpr = false) :
    unifyTurned turned (depth + 1) s u v =
      unifyTurned turned depth s (s.walkStar (s.walk u)) (s.walkStar (s.walk v)) := by
  -- With no expression left, both orders come to the last branch.
  have plain : ∀ {a b : Term Var}, a.isExpr = false → b.isExpr = false →
      unifyResolved (unifyWithin depth) s a b = unifyWithin depth s a b := by
    intro a b noLeft noRight
    unfold unifyResolved
    split <;> simp_all [Term.isExpr]
  cases turned with
  | false => rw [unifyTurned, unifyWithin_resolved resolves, plain left right, unifyTurned]
  | true => rw [unifyTurned, unifyWithin_resolved resolves.symm, plain right left, unifyTurned]

/-- Without unknowns, two pairs and expressions, all there is to do is to compare. -/
theorem unifyTurned_leaves (turned : Bool) (left : ∀ x, s.walk u ≠ .var x)
    (right : ∀ y, s.walk v ≠ .var y)
    (notPairs : ∀ a d a' d', s.walk u = .pair a d → s.walk v ≠ .pair a' d')
    (plain : ¬ ((s.walk u).isExpr = true ∨ (s.walk v).isExpr = true)) :
    unifyTurned turned (depth + 1) s u v =
      if s.walk u = s.walk v then .singleton s else .empty := by
  cases turned with
  | false => rw [unifyTurned, unifyWithin_known left right notPairs, if_neg (by simpa using plain)]
  | true =>
    -- All conditions can be read from right to left as well.
    have turnedPairs : ∀ a d a' d', s.walk v = .pair a d → s.walk u ≠ .pair a' d' :=
      fun a d a' d' rightPair leftPair => notPairs a' d' a d leftPair rightPair
    have turnedPlain : ¬ ((s.walk v).isExpr || (s.walk u).isExpr) = true := by
      simpa [and_comm] using plain
    rw [unifyTurned, unifyWithin_known right left turnedPairs, if_neg turnedPlain,
      if_congr eq_comm rfl rfl]

end State

end Relational
