import Mathlib.Data.List.Nodup
import Relational.Arithmetic.Candidates
import Relational.Proofs.Arithmetic.Evaluation
import Relational.Proofs.Stream.Collect

/-! Running operators backwards: the candidates are exactly the operands that give the result. -/

namespace Relational

/-- A dividend is the product of quotient and divisor up to a remainder of smaller magnitude. -/
theorem exists_remainder {x divisor quotient : Int} (nonzero : divisor ≠ 0)
    (divides : x.tdiv divisor = quotient) :
    ∃ offset : Int, x = quotient * divisor + offset ∧ offset.natAbs < divisor.natAbs ∧
      (0 ≤ x → 0 ≤ quotient * divisor) ∧ (x ≤ 0 → quotient * divisor ≤ 0) ∧
      (quotient * divisor).natAbs ≤ x.natAbs := by
  -- The offset is the remainder of the truncating division.
  refine ⟨x.tmod divisor, ?_, ?_, ?_⟩
  · rw [← divides, Int.tdiv_mul_add_tmod]
  · rw [Int.natAbs_tmod]
    exact Nat.mod_lt _ (Int.natAbs_pos.2 nonzero)
  · -- The remainder has the sign of the dividend and no larger magnitude.
    have balance := Int.tdiv_mul_add_tmod x divisor
    have magnitude := Int.natAbs_tmod x divisor
    have smaller := Nat.mod_le x.natAbs divisor.natAbs
    have above : 0 ≤ x → 0 ≤ x.tmod divisor := Int.tmod_nonneg divisor
    have below : x ≤ 0 → x.tmod divisor ≤ 0 := by
      intro nonpositive
      have mirrored := Int.tmod_nonneg divisor (Int.neg_nonneg_of_nonpos nonpositive)
      rw [Int.neg_tmod] at mirrored
      omega
    rw [← divides]
    omega

/-- A product of two integers is in range if some integer in range divides back to one of them. -/
theorem word?_product {x : Int64} {divisor quotient : Int} (nonzero : divisor ≠ 0)
    (divides : x.toInt.tdiv divisor = quotient) : ∃ base, word? (quotient * divisor) = some base := by
  obtain ⟨_, _, _, above, below, magnitude⟩ := exists_remainder nonzero divides
  have least := x.le_toInt
  have greatest := x.toInt_lt
  refine ⟨Int64.ofInt (quotient * divisor), word?_eq_some_iff.2 ?_⟩
  -- The product lies between zero and the dividend.
  exact Int64.toInt_ofInt_of_le (by omega) (by omega)

/-- The magnitude of a divisor lies between the bounds that the quotient sets. -/
theorem divisor_bounds {dividend quotient x : Int} (nonzero : x ≠ 0) (nontrivial : quotient ≠ 0)
    (divides : dividend.tdiv x = quotient) :
    dividend.natAbs / (quotient.natAbs + 1) < x.natAbs ∧
      x.natAbs ≤ dividend.natAbs / quotient.natAbs := by
  -- Truncating division of integers is division of their magnitudes.
  have positive : 0 < x.natAbs := Int.natAbs_pos.2 nonzero
  have quotients : dividend.natAbs / x.natAbs = quotient.natAbs := by
    rw [← divides, Int.natAbs_tdiv]
    rfl
  constructor
  · -- A magnitude at the lower bound or below it would give a larger quotient.
    rw [Nat.div_lt_iff_lt_mul (Nat.succ_pos _), Nat.mul_comm, ← Nat.div_lt_iff_lt_mul positive,
      quotients]
    exact Nat.lt_succ_self _
  · -- A magnitude above the upper bound would give a smaller quotient.
    rw [Nat.le_div_iff_mul_le (Int.natAbs_pos.2 nontrivial), Nat.mul_comm,
      ← Nat.le_div_iff_mul_le positive]
    exact Nat.le_of_eq quotients.symm

/-- A divisor is negative exactly when the signs of dividend and quotient differ. -/
theorem divisor_sign {dividend quotient x : Int} (nontrivial : quotient ≠ 0)
    (divides : dividend.tdiv x = quotient) :
    x = if dividend < 0 ↔ quotient < 0 then (x.natAbs : Int) else -(x.natAbs : Int) := by
  -- Two of the three signs determine the third one.
  have bothPositive : 0 ≤ dividend → 0 ≤ x → 0 ≤ quotient := by
    intro above right
    exact divides ▸ Int.tdiv_nonneg above right
  have bothNegative : dividend ≤ 0 → x ≤ 0 → 0 ≤ quotient := by
    intro below left
    exact divides ▸ Int.tdiv_nonneg_of_nonpos_of_nonpos below left
  have oneNegative : 0 ≤ dividend → x ≤ 0 → quotient ≤ 0 := by
    intro above left
    exact divides ▸ Int.tdiv_nonpos_of_nonneg_of_nonpos above left
  -- The library has no rule for this one, so the dividend is mirrored first.
  have otherNegative : dividend ≤ 0 → 0 ≤ x → quotient ≤ 0 := by
    intro below right
    have mirrored := Int.tdiv_nonneg (Int.neg_nonneg_of_nonpos below) right
    rw [Int.neg_tdiv, divides] at mirrored
    omega
  -- The result is not zero, so in each case one of the four rules is left.
  split
  · omega
  · omega

/-- Offsets by increasing distance are all different. -/
theorem nearOffset_injective {i j : Nat} (same : nearOffset i = nearOffset j) : i = j := by
  -- Even places hold the offsets up to zero and odd places those above it.
  unfold nearOffset at same
  split at same <;> split at same <;> omega

/-- Every offset within a distance stands among the first ones listed for it. -/
theorem exists_nearOffset {offset : Int} {distance : Nat} (close : offset.natAbs < distance) :
    ∃ i < 2 * (distance - 1) + 1, nearOffset i = offset := by
  -- The place of an offset is about twice its distance.
  by_cases positive : 0 < offset
  · -- Positive offsets have the odd places.
    refine ⟨2 * offset.natAbs - 1, by omega, ?_⟩
    rw [nearOffset, if_neg (by omega)]
    omega
  · refine ⟨2 * offset.natAbs, by omega, ?_⟩
    rw [nearOffset, if_pos (by omega)]
    omega

/-- Errors that leave open whether there are solutions. -/
def EvalError.givesUp : EvalError → Bool
  | .notInvertible _ | .indeterminate _ => true
  | .typeMismatch .. | .divisionByZero | .overflow _ => false

/-- The search for an operand ended with an error that leaves open whether there are solutions. -/
def GivesUp (outcome : Except EvalError (LazyList (Term Var))) : Prop :=
  ∃ e, outcome = .error e ∧ e.givesUp = true

/-- A search that lists candidates does not give up. -/
@[simp] theorem not_givesUp_ok (candidates : LazyList (Term Var)) : ¬ GivesUp (.ok candidates) :=
  fun gaveUp => nomatch gaveUp.choose_spec.1

/-- A search that fails gives up exactly if its error does. -/
@[simp] theorem givesUp_error_iff (e : EvalError) : GivesUp (.error e) ↔ e.givesUp = true := by
  refine ⟨fun gaveUp => ?_, fun gaveUp => ⟨e, rfl, gaveUp⟩⟩
  -- The error of the outcome is the only one there is.
  obtain ⟨other, same, gaveUp⟩ := gaveUp
  exact Except.error.inj same ▸ gaveUp

/-- An equation with a single exact solution is always settled. -/
@[simp] theorem not_givesUp_exactCandidate (op : Operator) (exact : Int) :
    ¬ GivesUp (exactCandidate op exact) := by
  unfold exactCandidate
  -- An overflow settles it too: no machine word is the solution.
  split <;> simp [EvalError.givesUp]

/-- Only for zero times something that is to be zero is a factor left open. -/
@[simp] theorem givesUp_factorCandidates_iff (op : Operator) (product factor : Int64) :
    GivesUp (factorCandidates op product factor) ↔ factor = 0 ∧ product = 0 := by
  unfold factorCandidates
  -- Any factor but zero is divided by, and then only the quotient can be the other one.
  by_cases zero : factor = 0
  · by_cases nothing : product = 0 <;> simp [zero, nothing, EvalError.givesUp]
  · simp only [zero, if_false, false_and, iff_false]
    split <;> simp [EvalError.givesUp]

/-- Items are exactly the terms with a property, each of them listed once. -/
structure Lists (items : LazyList (Term Var)) (property : Term Var → Prop) : Prop where
  nodup : items.toList.Nodup
  mem_iff : ∀ x, x ∈ items.toList ↔ property x

/-- Candidates are exactly the terms with a property, and an error means there are none or gives up. -/
def Solves (property : Term Var → Prop) : Except EvalError (LazyList (Term Var)) → Prop
  | .ok candidates => Lists candidates property
  | .error e => e.givesUp = false → ∀ x, ¬ property x

/--
Solutions of one kind are all solutions, if nothing of another kind is one.

The equation speaks of the values of that kind, and the property of the terms that hold them.
-/
theorem Solves.of_kind {β : Type} {kind : β → Term Var} {equation : β → Prop}
    {property : Term Var → Prop} {outcome : Except EvalError (LazyList (Term Var))}
    (solves : Solves (fun x => ∃ value, x = kind value ∧ equation value) outcome)
    (sound : ∀ value, equation value → property (kind value))
    (complete : ∀ x, property x → ∃ value, x = kind value ∧ equation value) :
    Solves property outcome := by
  -- Both directions together make the two properties one.
  have same : (fun x => ∃ value, x = kind value ∧ equation value) = property := by
    funext x
    refine propext ⟨fun solution => ?_, complete x⟩
    obtain ⟨value, rfl, holds⟩ := solution
    exact sound value holds
  exact same ▸ solves

/-- An error that does not give up rules every term out. -/
theorem none_of_solves {property : Term Var → Prop} {e : EvalError}
    (solves : Solves property (.error e)) : e.givesUp = true ∨ ∀ x, ¬ property x := by
  -- Errors are of two sorts, and only one of them says something about solutions.
  cases given : e.givesUp with
  | true => exact .inl rfl
  | false => exact .inr (solves given)

/-- Read as a stream, the items come to an end, being exactly the terms with a property, each once. -/
def Exhausts (items : LazyList (Term Var)) (property : Term Var → Prop) : Prop :=
  ∃ fuel found, (Stream.ofLazyList items).collect Stream.noJobs fuel .all = some found ∧
    found.Nodup ∧ ∀ x, x ∈ found ↔ property x

/-- Listed items are also what the stream of them ends with. -/
theorem Lists.exhausts {items : LazyList (Term Var)} {property : Term Var → Prop}
    (lists : Lists items property) : Exhausts items property := by
  -- Collecting the whole stream gives the items of the list in their order.
  obtain ⟨fuel, collected⟩ := Stream.collect_ofLazyList Stream.noJobs items
  exact ⟨fuel, items.toList, collected, lists.nodup, lists.mem_iff⟩

/-- One item lists a property that only this item has. -/
theorem lists_single {a : Term Var} {property : Term Var → Prop}
    (only : ∀ x, property x ↔ x = a) : Lists (.single a) property where
  nodup := List.nodup_singleton a
  mem_iff := by
    intro x
    -- The list holds this item and nothing else.
    rw [only, LazyList.single, LazyList.toList, LazyList.toList, List.mem_singleton]

/-- No items list a property that nothing has. -/
theorem lists_nil {property : Term Var → Prop} (none : ∀ x, ¬ property x) :
    Lists .nil property where
  nodup := List.nodup_nil
  mem_iff := by
    intro x
    exact ⟨nofun, fun holds => absurd holds (none x)⟩

/-- A scan lists what it finds, if it finds nothing twice. -/
theorem lists_scan {f : Nat → Option (Term Var)} {count start : Nat}
    {property : Term Var → Prop}
    (injective : ∀ {i j : Nat} {x : Term Var}, f i = some x → f j = some x → i = j)
    (sound : ∀ {i : Nat} {x : Term Var}, start ≤ i → f i = some x → property x)
    (complete : ∀ x, property x → ∃ i, start ≤ i ∧ i < start + count ∧ f i = some x) :
    Lists (.scan f count start) property where
  nodup := by
    -- A scan visits each place once, and no two places give the same item.
    rw [LazyList.toList_scan]
    exact List.Nodup.filterMap (fun i j x first second => injective first second)
      (List.nodup_range' ..)
  mem_iff := by
    intro x
    rw [LazyList.toList_scan, List.mem_filterMap]
    constructor
    · -- Only places from the start on are visited.
      intro found
      obtain ⟨i, inRange, value⟩ := found
      exact sound (List.mem_range'_1.1 inRange).1 value
    · -- A place that is within the count is visited.
      intro holds
      obtain ⟨i, least, greatest, value⟩ := complete x holds
      exact ⟨i, List.mem_range'_1.2 ⟨least, greatest⟩, value⟩

/-- The one exact solution is found, or is out of range and thus no solution. -/
theorem exactCandidate_solves (op : Operator) (exact : Int) :
    Solves (fun x => ∃ w : Int64, x = .int w ∧ w.toInt = exact) (exactCandidate op exact) := by
  -- There is at most one word with the exact value, and none if it is out of range.
  unfold exactCandidate
  cases held : word? exact with
  | none =>
    intro _ x solution
    obtain ⟨w, _, read⟩ := solution
    exact word?_eq_none_iff.1 held w read
  | some w =>
    have read := word?_eq_some_iff.1 held
    refine lists_single fun x => ?_
    constructor
    · -- Words are determined by the integers that they read as.
      intro solution
      obtain ⟨other, rfl, same⟩ := solution
      rw [Int64.toInt_inj.1 (same.trans read.symm)]
    · intro same
      exact ⟨w, same, read⟩

/-- Exact division finds the missing factor, unless every factor would do. -/
theorem factorCandidates_solves (op : Operator) (product factor : Int64) :
    Solves (fun x => ∃ w : Int64, x = .int w ∧ w.toInt * factor.toInt = product.toInt)
      (factorCandidates op product factor) := by
  unfold factorCandidates
  -- A factor of zero leaves no way back to the other one.
  by_cases zero : factor = 0
  · subst zero
    rw [if_pos rfl]
    split
    · -- Every factor solves this one, so the search gives up.
      intro gaveUp
      cases gaveUp
    · -- No multiple of zero is anything but zero.
      rename_i nonzero
      refine lists_nil fun x solution => ?_
      obtain ⟨w, _, equation⟩ := solution
      rw [Int64.toInt_zero, Int.mul_zero] at equation
      exact nonzero (Int64.toInt_inj.1 equation.symm)
  · rw [if_neg zero]
    have nonzero := toInt_ne_zero zero
    -- A solution is the exact quotient, and then nothing is left over.
    have quotient : ∀ w : Int64, w.toInt * factor.toInt = product.toInt →
        w.toInt = product.toInt.tdiv factor.toInt := by
      intro w equation
      rw [← equation, Int.mul_tdiv_cancel _ nonzero]
    cases held : word? (product.toInt.tdiv factor.toInt) with
    | none =>
      -- A factor would have to be the quotient, and that is no machine word.
      intro _ x solution
      obtain ⟨w, _, equation⟩ := solution
      exact word?_eq_none_iff.1 held w (quotient w equation)
    | some q =>
      -- The quotient is the only possible factor, and the remainder tells whether it is one.
      have read := word?_eq_some_iff.1 held
      dsimp only
      split
      · -- Nothing is left over, so the quotient is the factor.
        rename_i exact
        refine lists_single fun x => ?_
        constructor
        · intro solution
          obtain ⟨w, rfl, equation⟩ := solution
          rw [Int64.toInt_inj.1 ((quotient w equation).trans read.symm)]
        · intro same
          exact ⟨q, same, read ▸ Int.tdiv_mul_cancel_of_tmod_eq_zero exact⟩
      · -- Something is left over, so there is no factor.
        rename_i inexact
        refine lists_nil fun x solution => ?_
        obtain ⟨w, _, equation⟩ := solution
        exact inexact (equation ▸ Int.mul_tmod_left _ _)

/-- A tested word is found exactly when it reads as the wanted integer and passes the test. -/
theorem tested_eq_some_iff {n : Int} {test : Int64 → Prop} [DecidablePred test] {x : Term Var} :
    (match word? n with
      | some w => if test w then some (Term.int w) else none
      | none => none) = some x ↔ ∃ w : Int64, x = .int w ∧ w.toInt = n ∧ test w := by
  -- Only the word that reads as the integer is put to the test.
  cases held : word? n with
  | none =>
    simp only [reduceCtorEq, false_iff]
    intro found
    obtain ⟨w, _, read, _⟩ := found
    exact word?_eq_none_iff.1 held w read
  | some w =>
    have read := word?_eq_some_iff.1 held
    simp only [Option.ite_none_right_eq_some, Option.some.injEq]
    constructor
    · -- The tested word is the one that was found.
      intro found
      exact ⟨w, found.2.symm, read, found.1⟩
    · intro found
      obtain ⟨other, rfl, same, passes⟩ := found
      obtain rfl := Int64.toInt_inj.1 (same.trans read.symm)
      exact ⟨passes, rfl⟩

/-- A dividend is found at an offset exactly when it is there and divides back to the quotient. -/
theorem dividend?_eq_some_iff {divisor quotient base : Int64} {i : Nat} {x : Term Var} :
    dividend? divisor quotient base i = some x ↔
      ∃ w : Int64, x = .int w ∧ w.toInt = base.toInt + nearOffset i ∧
        w.toInt.tdiv divisor.toInt = quotient.toInt :=
  tested_eq_some_iff

/-- The dividends of a quotient are found on both sides of the product, each once. -/
theorem dividendCandidates_lists {divisor quotient : Int64} (nonzero : divisor ≠ 0) :
    Lists (dividendCandidates divisor quotient)
      (fun x => ∃ w : Int64, x = .int w ∧ w.toInt.tdiv divisor.toInt = quotient.toInt) := by
  unfold dividendCandidates
  cases held : word? (quotient.toInt * divisor.toInt) with
  | none =>
    -- With the product out of range, every dividend would be further out still.
    refine lists_nil fun x solution => ?_
    obtain ⟨w, _, divides⟩ := solution
    obtain ⟨base, inRange⟩ := word?_product (toInt_ne_zero nonzero) divides
    rw [held] at inRange
    cases inRange
  | some base =>
    have read := word?_eq_some_iff.1 held
    -- Around the product, offsets of smaller magnitude than the divisor are tried in turn.
    refine lists_scan ?_ ?_ ?_
    · -- Different offsets from the same base are different words.
      intro i j x first second
      obtain ⟨w, rfl, here, _⟩ := dividend?_eq_some_iff.1 first
      obtain ⟨other, same, there, _⟩ := dividend?_eq_some_iff.1 second
      obtain rfl := Term.int.inj same
      exact nearOffset_injective (by omega)
    · -- Every word that is found has been tested.
      intro i x _ found
      obtain ⟨w, rfl, _, divides⟩ := dividend?_eq_some_iff.1 found
      exact ⟨w, rfl, divides⟩
    · intro x solution
      obtain ⟨w, rfl, divides⟩ := solution
      -- Every solution is at such an offset, its remainder.
      obtain ⟨offset, place, close, _⟩ := exists_remainder (toInt_ne_zero nonzero) divides
      obtain ⟨i, within, here⟩ := exists_nearOffset close
      refine ⟨i, Nat.zero_le i, by omega, dividend?_eq_some_iff.2 ⟨w, rfl, ?_, divides⟩⟩
      rw [read, here, place]

/-- A divisor is found at a magnitude exactly when it has that magnitude and gives the quotient. -/
theorem divisor?_eq_some_iff {dividend quotient : Int64} {magnitude : Nat} {x : Term Var} :
    divisor? dividend quotient magnitude = some x ↔
      ∃ w : Int64, x = .int w ∧
        w.toInt = (if dividend < 0 ↔ quotient < 0 then (magnitude : Int) else -(magnitude : Int)) ∧
        dividend.toInt.tdiv w.toInt = quotient.toInt :=
  tested_eq_some_iff

/-- The sign of a machine word is the sign of the integer it reads as. -/
theorem neg_iff_toInt_neg (w : Int64) : w < 0 ↔ w.toInt < 0 := by
  rw [Int64.lt_iff_toInt_lt, Int64.toInt_zero]

/-- The divisors of a quotient are found by increasing magnitude, each once. -/
theorem divisorCandidates_lists {dividend quotient : Int64} (nontrivial : quotient ≠ 0) :
    Lists (divisorCandidates dividend quotient)
      (fun x => ∃ w : Int64, x = .int w ∧ w ≠ 0 ∧
        dividend.toInt.tdiv w.toInt = quotient.toInt) := by
  refine lists_scan ?_ ?_ ?_
  · intro i j x first second
    obtain ⟨w, rfl, here, _⟩ := divisor?_eq_some_iff.1 first
    obtain ⟨other, same, there, _⟩ := divisor?_eq_some_iff.1 second
    obtain rfl := Term.int.inj same
    -- The sign is the same for all magnitudes, so different ones give different divisors.
    rw [here] at there
    split at there <;> omega
  · intro i x least found
    obtain ⟨w, rfl, here, divides⟩ := divisor?_eq_some_iff.1 found
    refine ⟨w, rfl, ?_, divides⟩
    -- The least magnitude is at least one.
    have positive : 0 < i := Nat.lt_of_lt_of_le (Nat.succ_pos _) least
    intro zero
    subst zero
    rw [Int64.toInt_zero] at here
    split at here <;> omega
  · intro x solution
    obtain ⟨w, rfl, nonzero, divides⟩ := solution
    -- Sign and bounds of a solution put it among the magnitudes that are tried.
    have signs := divisor_sign (toInt_ne_zero nontrivial) divides
    have bounds := divisor_bounds (toInt_ne_zero nonzero) (toInt_ne_zero nontrivial) divides
    simp only [← neg_iff_toInt_neg] at signs
    unfold leastDivisor greatestDivisor
    exact ⟨w.toInt.natAbs, by omega, by omega, divisor?_eq_some_iff.2 ⟨w, rfl, signs, divides⟩⟩

/-- Both truth values are tried, so those that satisfy a condition are found. -/
theorem boolCandidates_lists (holds : Bool → Bool) :
    Lists (boolCandidates holds) (fun x => ∃ b : Bool, x = .bool b ∧ holds b = true) where
  nodup := by
    rw [boolCandidates, LazyList.toList_ofList]
    -- The two truth values are different, and filtering repeats nothing.
    refine List.Nodup.map (fun _ _ => Term.bool.inj) (List.Nodup.filter _ ?_)
    decide
  mem_iff := by
    intro x
    rw [boolCandidates, LazyList.toList_ofList]
    simp only [List.mem_map, List.mem_filter]
    constructor
    · -- What is found has passed the filter.
      intro found
      obtain ⟨b, ⟨_, satisfied⟩, rfl⟩ := found
      exact ⟨b, rfl, satisfied⟩
    · -- Both truth values are among those that were filtered.
      intro found
      obtain ⟨b, rfl, satisfied⟩ := found
      refine ⟨b, ⟨?_, satisfied⟩, rfl⟩
      cases b <;> simp

/-- The text that is left, if any, is the one solution of an equation that determines it. -/
theorem lists_text {left : Option (List Char)} {equation : String → Prop} :
    (∀ a : String, equation a ↔ left = some a.toList) →
      Lists (match left with
        | some chars => .single (.str (.ofList chars))
        | none => .nil) (fun x => ∃ a : String, x = .str a ∧ equation a) := by
  -- Whether a text solves the equation is only a matter of the characters left.
  intro determined
  simp only [determined]
  cases left with
  | none =>
    -- Without characters left no text solves the equation.
    refine lists_nil fun x solution => ?_
    obtain ⟨a, _, found⟩ := solution
    cases found
  | some chars =>
    refine lists_single fun x => ?_
    constructor
    · -- The text that solves it has just the characters left.
      intro solution
      obtain ⟨a, rfl, found⟩ := solution
      rw [Option.some.inj found, String.ofList_toList]
    · intro same
      exact ⟨_, same, by rw [String.toList_ofList]⟩

/-- Taking the end off a text finds the one front that it was put behind. -/
theorem withoutSuffix_lists (suffix whole : String) :
    Lists (withoutSuffix suffix whole) (fun x => ∃ a : String, x = .str a ∧ a ++ suffix = whole) := by
  -- Characters are left exactly if the whole ends with the suffix behind them.
  refine lists_text fun a => ?_
  rw [List.isSuffixOf?_eq_some_iff_append_eq, ← String.toList_append, String.toList_inj]

/-- Taking the start off a text finds the one back that it was put before. -/
theorem withoutFront_lists (front whole : String) :
    Lists (withoutFront front whole) (fun x => ∃ b : String, x = .str b ∧ front ++ b = whole) := by
  -- Characters are left exactly if the whole starts with the front before them.
  refine lists_text fun b => ?_
  rw [List.isPrefixOf?_eq_some_iff_append_eq, ← String.toList_append, String.toList_inj]

namespace Operator

/-- Solving for the left operand finds exactly the operands that compute the result. -/
theorem solveLhs_solves (op : Operator) (rhs result : Term Var) :
    Solves (fun x => op.Computes x rhs result) (op.solveLhs rhs result) := by
  -- In each branch the rule for the operator and the kind of result says what to solve.
  unfold solveLhs
  split
  · -- A sum is solved by a difference.
    refine (exactCandidate_solves _ _).of_kind (fun a equation => .add (by omega)) ?_
    intro x computes
    cases computes with
    | add exact => exact ⟨_, rfl, by omega⟩
  · -- A text is solved by taking its known end off.
    refine Solves.of_kind (withoutSuffix_lists _ _) (fun a equation => equation ▸ .join) ?_
    intro x computes
    cases computes with
    | join => exact ⟨_, rfl, rfl⟩
  · -- A difference is solved by a sum.
    refine (exactCandidate_solves _ _).of_kind (fun a equation => .sub (by omega)) ?_
    intro x computes
    cases computes with
    | sub exact => exact ⟨_, rfl, by omega⟩
  · -- A product is solved by exact division.
    refine (factorCandidates_solves _ _ _).of_kind (fun a equation => .mul equation.symm) ?_
    intro x computes
    cases computes with
    | mul exact => exact ⟨_, rfl, exact.symm⟩
  · split
    · -- Nothing can be divided by zero.
      rename_i zero
      intro _ x computes
      cases computes with
      | div nonzero _ => exact nonzero zero
    · -- A quotient is solved by trying dividends around the product.
      rename_i nonzero
      refine Solves.of_kind (dividendCandidates_lists nonzero)
        (fun a equation => .div nonzero equation.symm) ?_
      intro x computes
      cases computes with
      | div _ exact => exact ⟨_, rfl, exact.symm⟩
  · -- Remainders are never run backwards, whatever the operands are.
    intro gaveUp
    cases gaveUp
  · -- Both truth values are tried for a conjunction.
    refine Solves.of_kind (boolCandidates_lists _)
      (fun a equation => beq_iff_eq.1 equation ▸ .and) ?_
    intro x computes
    cases computes with
    | and => exact ⟨_, rfl, beq_self_eq_true _⟩
  · -- And so they are for a disjunction.
    refine Solves.of_kind (boolCandidates_lists _)
      (fun a equation => beq_iff_eq.1 equation ▸ .or) ?_
    intro x computes
    cases computes with
    | or => exact ⟨_, rfl, beq_self_eq_true _⟩
  · -- Operands of any other kinds have no value together.
    intro _ x computes
    cases computes <;> simp_all

/-- Solving for the right operand finds exactly the operands that compute the result. -/
theorem solveRhs_solves (op : Operator) (lhs result : Term Var) :
    Solves (fun x => op.Computes lhs x result) (op.solveRhs lhs result) := by
  -- The same branches as on the left, with the operands the other way round.
  unfold solveRhs
  split
  · -- A sum is symmetric, so it is solved as on the left.
    refine (exactCandidate_solves _ _).of_kind (fun b equation => .add (by omega)) ?_
    intro x computes
    cases computes with
    | add exact => exact ⟨_, rfl, by omega⟩
  · -- Here the known part of a text is its start.
    refine Solves.of_kind (withoutFront_lists _ _) (fun b equation => equation ▸ .join) ?_
    intro x computes
    cases computes with
    | join => exact ⟨_, rfl, rfl⟩
  · -- What is taken away is the difference of dividend and result.
    refine (exactCandidate_solves _ _).of_kind (fun b equation => .sub (by omega)) ?_
    intro x computes
    cases computes with
    | sub exact => exact ⟨_, rfl, by omega⟩
  · refine (factorCandidates_solves _ _ _).of_kind
      (fun b equation => .mul (by rw [Int.mul_comm, equation])) ?_
    intro x computes
    cases computes with
    | mul exact => exact ⟨_, rfl, by rw [exact, Int.mul_comm]⟩
  · split
    · -- Every divisor beyond the dividend gives zero, so the search gives up.
      intro gaveUp
      cases gaveUp
    · -- The result is not zero, so the divisors are between two bounds.
      rename_i nontrivial
      refine Solves.of_kind (divisorCandidates_lists nontrivial)
        (fun b equation => .div equation.1 equation.2.symm) ?_
      intro x computes
      cases computes with
      | div nonzero exact => exact ⟨_, rfl, nonzero, exact.symm⟩
  · -- Remainders are not run backwards on this side, either.
    intro gaveUp
    cases gaveUp
  · refine Solves.of_kind (boolCandidates_lists _)
      (fun b equation => beq_iff_eq.1 equation ▸ .and) ?_
    intro x computes
    cases computes with
    | and => exact ⟨_, rfl, beq_self_eq_true _⟩
  · refine Solves.of_kind (boolCandidates_lists _)
      (fun b equation => beq_iff_eq.1 equation ▸ .or) ?_
    intro x computes
    cases computes with
    | or => exact ⟨_, rfl, beq_self_eq_true _⟩
  · intro _ x computes
    cases computes <;> simp_all

/-- The left operand is not determined: remainders are not run backwards, and anything times zero is zero. -/
def LeavesOpenLeft (op : Operator) (rhs result : Term Var) : Prop :=
  op = .rem ∨ op = .mul ∧ rhs = .int 0 ∧ result = .int 0

/--
The right operand is not determined, for the same reasons as a left one or because the result is a quotient
of zero, which every divisor beyond the dividend has.
-/
def LeavesOpenRight (op : Operator) (lhs result : Term Var) : Prop :=
  op.LeavesOpenLeft lhs result ∨ op = .div ∧ (∃ a, lhs = .int a) ∧ result = .int 0

/-- Solving for the left operand gives up exactly where that operand is not determined. -/
theorem givesUp_solveLhs_iff (op : Operator) (rhs result : Term Var) :
    GivesUp (op.solveLhs rhs result) ↔ op.LeavesOpenLeft rhs result := by
  unfold solveLhs LeavesOpenLeft
  -- Each branch is of one operator, so at most one of the reasons can apply to it.
  split
  case h_5 => split <;> simp [EvalError.givesUp]
  all_goals simp_all [EvalError.givesUp]

/-- Solving for the right operand gives up exactly where that operand is not determined. -/
theorem givesUp_solveRhs_iff (op : Operator) (lhs result : Term Var) :
    GivesUp (op.solveRhs lhs result) ↔ op.LeavesOpenRight lhs result := by
  unfold solveRhs LeavesOpenRight LeavesOpenLeft
  -- The branches are those of the left side, but for the quotient of zero.
  split
  case h_5 => split <;> simp_all [EvalError.givesUp]
  all_goals simp_all [EvalError.givesUp]

/-- Candidates for the left operand are only ever listed for a known right operand. -/
theorem isAtom_of_solveLhs {op : Operator} {rhs result : Term Var}
    {candidates : LazyList (Term Var)} (solved : op.solveLhs rhs result = .ok candidates) :
    rhs.isAtom = true := by
  -- Every branch that lists candidates has matched the known operand with an integer, a truth value or a text.
  unfold solveLhs at solved
  split at solved <;> first | rfl | cases solved

/-- Candidates for the right operand are only ever listed for a known left operand. -/
theorem isAtom_of_solveRhs {op : Operator} {lhs result : Term Var}
    {candidates : LazyList (Term Var)} (solved : op.solveRhs lhs result = .ok candidates) :
    lhs.isAtom = true := by
  -- The branches are the same as on the left.
  unfold solveRhs at solved
  split at solved <;> first | rfl | cases solved

/--
Running an operator backwards is exact.

The candidates form a stream that ends, in which exactly the terms that evaluate to the result stand,
each of them once. An error means that there are none, unless it says that the search gives up, which it
does exactly where the missing operand is not determined.
-/
theorem candidates_exact (op : Operator) (known result : Term Var) :
    (match op.solveLhs known result with
      | .ok candidates => Exhausts candidates fun x => op.evaluate x known = .ok result
      | .error e => e.givesUp = true ∨ ∀ x, op.evaluate x known ≠ .ok result) ∧
    (match op.solveRhs known result with
      | .ok candidates => Exhausts candidates fun x => op.evaluate known x = .ok result
      | .error e => e.givesUp = true ∨ ∀ x, op.evaluate known x ≠ .ok result) ∧
    (GivesUp (op.solveLhs known result) ↔ op.LeavesOpenLeft known result) ∧
    (GivesUp (op.solveRhs known result) ↔ op.LeavesOpenRight known result) := by
  -- What the operator computes is what evaluation gives, on either side.
  have left := op.solveLhs_solves known result
  have right := op.solveRhs_solves known result
  simp only [← evaluate_eq_ok_iff] at left right
  refine ⟨?_, ?_, op.givesUp_solveLhs_iff known result, op.givesUp_solveRhs_iff known result⟩
  · -- A list of candidates is exact as a list, and so as the stream that is made of it.
    cases solved : op.solveLhs known result with
    | ok candidates =>
      rw [solved] at left
      exact Lists.exhausts left
    | error e =>
      rw [solved] at left
      exact none_of_solves left
  · cases solved : op.solveRhs known result with
    | ok candidates =>
      rw [solved] at right
      exact Lists.exhausts right
    | error e =>
      rw [solved] at right
      exact none_of_solves right

end Operator

end Relational
