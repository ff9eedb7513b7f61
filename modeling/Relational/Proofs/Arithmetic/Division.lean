import Mathlib.Algebra.Group.Nat.Defs
import Relational.Arithmetic.Checked
import Relational.Proofs.Arithmetic.Exactness
import Relational.Proofs.Arithmetic.Inverse

/-! Operands of a division: the order in which they are found, and the machine range of the search. -/

namespace Relational

namespace Width

variable {n : Int}

/-- Words hold what is in their range. -/
theorem hold?_word (inRange : InRange n) : Width.word.hold? n = some n :=
  -- The greatest word is one less than the end of the range.
  if_pos ⟨inRange.1, Int.le_sub_one_of_lt inRange.2⟩

/-- Magnitudes hold what is not negative and below twice the range of words. -/
theorem hold?_magnitude (above : 0 ≤ n) (below : n < 2 ^ 64) :
    Width.magnitude.hold? n = some n :=
  if_pos ⟨above, Int.le_sub_one_of_lt below⟩

/-- Wide values hold what is within twice the range of words, and much more. -/
theorem hold?_wide (above : -2 ^ 64 ≤ n) (below : n ≤ 2 ^ 64) : Width.wide.hold? n = some n :=
  if_pos ⟨Int.le_trans (by decide) above, Int.le_trans below (by decide)⟩

/-- Magnitudes hold every magnitude that a machine word can have. -/
theorem hold?_natAbs (w : Int64) :
    Width.magnitude.hold? w.toInt.natAbs = some (w.toInt.natAbs : Int) := by
  -- The least word has the largest magnitude, which is still within the unsigned type.
  have above := w.le_toInt
  have below := w.toInt_lt
  exact hold?_magnitude (by omega) (by omega)

/-- Magnitudes hold the successor of every magnitude that a machine word can have. -/
theorem add?_magnitude {a : Nat} (below : a ≤ 2 ^ 63) :
    Width.magnitude.add? a 1 = some ((a + 1 : Nat) : Int) :=
  hold?_magnitude (n := (a + 1 : Nat)) (Int.natCast_nonneg _) (by omega)

/-- Magnitudes hold the quotient of two magnitudes. -/
theorem div?_magnitude {a b : Nat} (nonzero : b ≠ 0) (below : a < 2 ^ 64) :
    Width.magnitude.div? a b = some ((a / b : Nat) : Int) := by
  -- A quotient is no larger than the dividend.
  have smaller := Nat.div_le_self a b
  rw [div?, if_neg (by omega), ← Int.ofNat_tdiv]
  exact hold?_magnitude (Int.natCast_nonneg _) (by omega)

/-- Words hold the quotient of two words, unless the least one is divided by minus one. -/
theorem div?_word {a b : Int64} (nonzero : b ≠ 0) (other : ¬ (a = Int64.minValue ∧ b = -1)) :
    Width.word.div? a.toInt b.toInt = some (a.toInt.tdiv b.toInt) := by
  -- A quotient of words leaves the range in one case only, which is excluded.
  rw [div?, if_neg (toInt_ne_zero nonzero)]
  exact hold?_word (inRange_tdiv_iff.2 other)

end Width

section Order

/--
The machine words that a scan finds are in the order of their places.

What is known of the word at a place has to put the words of later places behind it.
-/
theorem exists_words_scan {f : Nat → Option (Term Var)} (stands : Nat → Int64 → Prop)
    (before : Int64 → Int64 → Prop)
    (found : ∀ i x, f i = some x → ∃ w : Int64, x = .int w ∧ stands i w)
    (ordered : ∀ i j w v, i < j → stands i w → stands j v → before w v) (count start : Nat) :
    ∃ words : List Int64, (LazyList.scan f count start).toList = words.map .int ∧
      words.Pairwise before ∧ ∀ w ∈ words, ∃ i, start ≤ i ∧ stands i w := by
  -- The places that the words come from are carried along, since only they tell the order.
  induction count generalizing start with
  | zero => exact ⟨[], rfl, .nil, nofun⟩
  | succ count ih =>
    obtain ⟨words, listed, pairwise, places⟩ := ih (start + 1)
    rw [LazyList.scan]
    cases here : f start with
    | none =>
      refine ⟨words, listed, pairwise, fun w member => ?_⟩
      obtain ⟨i, later, place⟩ := places w member
      exact ⟨i, Nat.le_of_succ_le later, place⟩
    | some x =>
      obtain ⟨w, rfl, first⟩ := found start x here
      refine ⟨w :: words, congrArg (Term.int w :: ·) listed, .cons (fun v member => ?_) pairwise, ?_⟩
      · -- The word found here stands before all that come from later places.
        obtain ⟨i, later, place⟩ := places v member
        exact ordered start i w v later first place
      · intro v member
        rcases List.mem_cons.1 member with rfl | member
        · exact ⟨start, Nat.le_refl start, first⟩
        · obtain ⟨i, later, place⟩ := places v member
          exact ⟨i, Nat.le_of_succ_le later, place⟩

/-- Of two words the first is nearer to an integer, or as near and larger. -/
def Nearer (product : Int) (w v : Int64) : Prop :=
  (w.toInt - product).natAbs ≤ (v.toInt - product).natAbs ∧
    ((w.toInt - product).natAbs = (v.toInt - product).natAbs → v.toInt < w.toInt)

/-- Later offsets are further away, or as far away and smaller. -/
theorem nearOffset_ordered {i j : Nat} (earlier : i < j) :
    (nearOffset i).natAbs ≤ (nearOffset j).natAbs ∧
      ((nearOffset i).natAbs = (nearOffset j).natAbs → nearOffset j < nearOffset i) := by
  -- The two offsets at a distance have an odd place and the even place behind it.
  unfold nearOffset
  split <;> split <;> omega

/-- The dividends of a quotient are machine words, the nearest to the product first. -/
theorem exists_dividends_nearer (divisor quotient : Int64) :
    ∃ words : List Int64, (dividendCandidates divisor quotient).toList = words.map .int ∧
      words.Pairwise (Nearer (quotient.toInt * divisor.toInt)) := by
  unfold dividendCandidates
  cases held : word? (quotient.toInt * divisor.toInt) with
  | none => exact ⟨[], rfl, .nil⟩
  | some base =>
    have read := word?_eq_some_iff.1 held
    have found : ∀ i x, dividend? divisor quotient base i = some x → ∃ w : Int64, x = .int w ∧
        w.toInt = quotient.toInt * divisor.toInt + nearOffset i := by
      intro i x found
      obtain ⟨w, rfl, place, _⟩ := dividend?_eq_some_iff.1 found
      exact ⟨w, rfl, by rw [place, read]⟩
    -- A word is as far from the product as the offset of its place is from zero.
    have ordered : ∀ (i j : Nat) (w v : Int64), i < j →
        w.toInt = quotient.toInt * divisor.toInt + nearOffset i →
        v.toInt = quotient.toInt * divisor.toInt + nearOffset j →
        Nearer (quotient.toInt * divisor.toInt) w v := by
      intro i j w v earlier first second
      have offsets := nearOffset_ordered earlier
      unfold Nearer
      omega
    obtain ⟨words, listed, pairwise, _⟩ := exists_words_scan _ _ found ordered
      (2 * (divisor.toInt.natAbs - 1) + 1) 0
    exact ⟨words, listed, pairwise⟩

/-- The divisors of a quotient are machine words of one sign, the smallest magnitude first. -/
theorem exists_divisors_smaller (dividend quotient : Int64) :
    ∃ words : List Int64, (divisorCandidates dividend quotient).toList = words.map .int ∧
      ((∀ w ∈ words, 0 < w.toInt) ∨ ∀ w ∈ words, w.toInt < 0) ∧
      words.Pairwise fun w v => w.toInt.natAbs < v.toInt.natAbs := by
  have found : ∀ i x, divisor? dividend quotient i = some x → ∃ w : Int64, x = .int w ∧
      w.toInt = if dividend < 0 ↔ quotient < 0 then (i : Int) else -(i : Int) := by
    intro i x found
    obtain ⟨w, rfl, place, _⟩ := divisor?_eq_some_iff.1 found
    exact ⟨w, rfl, place⟩
  have ordered : ∀ (i j : Nat) (w v : Int64), i < j →
      (w.toInt = if dividend < 0 ↔ quotient < 0 then (i : Int) else -(i : Int)) →
      (v.toInt = if dividend < 0 ↔ quotient < 0 then (j : Int) else -(j : Int)) →
      w.toInt.natAbs < v.toInt.natAbs := by
    -- Both words have the sign that dividend and quotient ask for, so their magnitudes are the places.
    intro i j w v earlier first second
    rw [first, second]
    split <;> omega
  obtain ⟨words, listed, pairwise, places⟩ := exists_words_scan _ _ found ordered
    (greatestDivisor dividend quotient + 1 - leastDivisor dividend quotient)
    (leastDivisor dividend quotient)
  refine ⟨words, listed, ?_, pairwise⟩
  have positive : 0 < leastDivisor dividend quotient := Nat.succ_pos _
  -- The signs of dividend and quotient decide between a magnitude and its negative once for all places.
  by_cases same : dividend < 0 ↔ quotient < 0
  · refine .inl fun w member => ?_
    obtain ⟨i, least, place⟩ := places w member
    rw [if_pos same] at place
    omega
  · refine .inr fun w member => ?_
    obtain ⟨i, least, place⟩ := places w member
    rw [if_neg same] at place
    omega

end Order

section Safety

open Width

/-- Steps that all succeed give the list of what they give. -/
theorem mapM_eq_some_map {κ β : Type} {f : κ → Option β} {g : κ → β} {items : List κ}
    (succeed : ∀ x ∈ items, f x = some (g x)) : items.mapM f = some (items.map g) := by
  -- The first step that failed would make the whole fail, so each of them is used.
  induction items with
  | nil => rfl
  | cons x items ih =>
    have first := succeed x List.mem_cons_self
    have rest := ih fun y member => succeed y (List.mem_cons_of_mem x member)
    simp [List.mapM_cons, first, rest]

/-- Within the distances that machine words can be apart, the offsets are in range. -/
theorem offsetsAt?_eq_some {distance : Nat} (close : distance < 2 ^ 63) :
    offsetsAt? distance = some (if distance = 0 then [0] else [(distance : Int), -distance]) := by
  -- A distance fits in both types, and so does its negative in the wide one.
  have held : Width.magnitude.hold? distance = some (distance : Int) :=
    hold?_magnitude (by omega) (by omega)
  have above : Width.wide.hold? distance = some (distance : Int) :=
    hold?_wide (by omega) (by omega)
  have below : Width.wide.neg? distance = some (-distance : Int) :=
    hold?_wide (by omega) (by omega)
  unfold offsetsAt?
  simp only [held, above, below, Option.bind_eq_bind, Option.bind_some, Int.natCast_eq_zero]
  split <;> simp_all

/-- Distance by distance, the offsets are those at the places up to twice the last distance. -/
theorem flatten_offsets (spread : Nat) :
    ((List.range (spread + 1)).map fun distance : Nat =>
      if distance = 0 then [0] else [(distance : Int), -distance]).flatten =
      (List.range (2 * spread + 1)).map nearOffset := by
  induction spread with
  | zero => rfl
  | succ spread ih =>
    -- The next distance has an odd place and the even place behind it.
    have odd : nearOffset (2 * spread + 1) = ((spread + 1 : Nat) : Int) := by
      rw [nearOffset, if_neg (by omega)]
      omega
    have even : nearOffset (2 * spread + 2) = -((spread + 1 : Nat) : Int) := by
      rw [nearOffset, if_pos (by omega)]
      omega
    -- Two more places make one more distance.
    have places : List.range (2 * (spread + 1) + 1) =
        List.range (2 * spread + 1) ++ [2 * spread + 1, 2 * spread + 2] := by
      rw [show 2 * (spread + 1) + 1 = 2 * spread + 1 + 2 by omega, List.range_add]
      rfl
    rw [List.range_succ, List.map_append, List.flatten_append, ih, places, List.map_append]
    simp [odd, even]

/-- Around a product in range, a dividend is tried without leaving the machine types. -/
theorem dividendAt?_eq_some {divisor quotient base : Int64} (nonzero : divisor ≠ 0)
    (product : base.toInt = quotient.toInt * divisor.toInt) {i : Nat}
    (close : (nearOffset i).natAbs < divisor.toInt.natAbs) :
    dividendAt? divisor quotient base (nearOffset i) =
      some (dividend? divisor quotient base i) := by
  -- Base and offset are both within the range of a word, so their sum is within twice that range.
  have least := base.le_toInt
  have greatest := base.toInt_lt
  have leastDivisor := divisor.le_toInt
  have greatestDivisor := divisor.toInt_lt
  have place : Width.wide.add? base.toInt (nearOffset i) = some (base.toInt + nearOffset i) :=
    hold?_wide (by omega) (by omega)
  unfold dividendAt? dividend?
  simp only [place, Option.bind_eq_bind, Option.bind_some]
  cases held : word? (base.toInt + nearOffset i) with
  | none => rfl
  | some x =>
    have read := word?_eq_some_iff.1 held
    -- Next to a divisor of minus one only the product is tried, and that is no negative of the least word.
    have other : ¬ (x = Int64.minValue ∧ divisor = -1) := by
      intro only
      obtain ⟨rfl, rfl⟩ := only
      have lowest : Int64.minValue.toInt = -2 ^ 63 := rfl
      have mirrored : (-1 : Int64).toInt = -1 := rfl
      have bound := quotient.toInt_lt
      rw [mirrored] at product close
      omega
    simp only [div?_word nonzero other, Option.bind_some]
    rfl

/-- Dividends are found without leaving the machine types. -/
theorem dividends?_eq_some {divisor : Int64} (nonzero : divisor ≠ 0) (quotient : Int64) :
    dividends? divisor quotient = some (dividendCandidates divisor quotient).toList := by
  unfold dividends? dividendCandidates
  cases held : word? (quotient.toInt * divisor.toInt) with
  | none => rfl
  | some base =>
    -- Every operation before the search is within its type, since the divisor is a word other than zero.
    have product := word?_eq_some_iff.1 held
    have least := divisor.le_toInt
    have greatest := divisor.toInt_lt
    have positive : 0 < divisor.toInt.natAbs := Int.natAbs_pos.2 (toInt_ne_zero nonzero)
    have spread : Width.magnitude.sub? divisor.toInt.natAbs 1 =
        some ((divisor.toInt.natAbs - 1 : Nat) : Int) := by
      rw [Width.sub?, show (divisor.toInt.natAbs : Int) - 1 = (divisor.toInt.natAbs - 1 : Nat) by omega]
      exact hold?_magnitude (by omega) (by omega)
    -- Every distance up to the last is one between machine words.
    have offsets : (List.range (divisor.toInt.natAbs - 1 + 1)).mapM offsetsAt? =
        some ((List.range (divisor.toInt.natAbs - 1 + 1)).map fun distance : Nat =>
          if distance = 0 then [0] else [(distance : Int), -distance]) := by
      refine mapM_eq_some_map fun distance member => offsetsAt?_eq_some ?_
      have within := List.mem_range.1 member
      omega
    -- The places of the search are those whose offsets are closer than the divisor's magnitude.
    have found : ((List.range (2 * (divisor.toInt.natAbs - 1) + 1)).map nearOffset).mapM
        (dividendAt? divisor quotient base) =
        some ((List.range (2 * (divisor.toInt.natAbs - 1) + 1)).map
          (dividend? divisor quotient base)) := by
      rw [List.mapM_map]
      refine mapM_eq_some_map fun i member => dividendAt?_eq_some nonzero product ?_
      have within := List.mem_range.1 member
      unfold nearOffset
      split <;> omega
    simp only [hold?_natAbs, spread, Int.toNat_natCast, Option.bind_eq_bind, Option.bind_some, offsets,
      flatten_offsets, found]
    rw [LazyList.toList_scan, List.filterMap_map, List.range_eq_range']
    rfl

/-- A magnitude of machine words gets its sign without leaving the machine types. -/
theorem signed?_eq_some (dividend quotient : Int64) {magnitude : Nat} (small : magnitude ≤ 2 ^ 63) :
    signed? dividend quotient magnitude =
      some (if dividend < 0 ↔ quotient < 0 then (magnitude : Int) else -magnitude) := by
  -- The magnitude fits in both types, and so does its negative in the wide one.
  have held : Width.magnitude.hold? magnitude = some (magnitude : Int) :=
    hold?_magnitude (by omega) (by omega)
  have above : Width.wide.hold? magnitude = some (magnitude : Int) :=
    hold?_wide (by omega) (by omega)
  have below : Width.wide.neg? magnitude = some (-magnitude : Int) :=
    hold?_wide (by omega) (by omega)
  unfold signed?
  simp only [held, above, below, Option.bind_eq_bind, Option.bind_some]
  split <;> rfl

/-- A divisor is tried without leaving the machine types, if its magnitude is between the bounds. -/
theorem divisorAt?_eq_some {dividend quotient : Int64} {magnitude : Nat}
    (above : leastDivisor dividend quotient ≤ magnitude)
    (below : magnitude ≤ greatestDivisor dividend quotient) :
    divisorAt? dividend quotient magnitude = some (divisor? dividend quotient magnitude) := by
  -- The magnitude is at most that of the dividend, and at least one.
  have least := dividend.le_toInt
  have greatest := dividend.toInt_lt
  have small : magnitude ≤ dividend.toInt.natAbs := Nat.le_trans below (Nat.div_le_self _ _)
  have positive : 0 < magnitude := Nat.lt_of_lt_of_le (Nat.succ_pos _) above
  have place : signed? dividend quotient magnitude = _ := signed?_eq_some _ _ (by omega)
  unfold divisorAt? divisor?
  simp only [place, Option.bind_eq_bind, Option.bind_some]
  cases held : word? (if dividend < 0 ↔ quotient < 0 then (magnitude : Int) else -magnitude) with
  | none => rfl
  | some x =>
    have read := word?_eq_some_iff.1 held
    -- No magnitude that is tried is zero.
    have nonzero : x ≠ 0 := by
      intro zero
      rw [zero, Int64.toInt_zero] at read
      split at read <;> omega
    -- The least word has the divisor minus one only for a quotient that no word holds.
    have other : ¬ (dividend = Int64.minValue ∧ x = -1) := by
      intro only
      obtain ⟨rfl, rfl⟩ := only
      have lowest : Int64.minValue.toInt.natAbs = 2 ^ 63 := rfl
      have mirrored : (-1 : Int64).toInt = -1 := rfl
      have bound := quotient.toInt_lt
      rw [mirrored] at read
      split at read
      · -- With equal signs the divisor would be positive.
        omega
      · rename_i differ
        have natural : ¬ quotient.toInt < 0 := by
          rw [← neg_iff_toInt_neg]
          exact fun negative => differ ⟨fun _ => negative, fun _ => by decide⟩
        -- A divisor of minus one has the magnitude one, so the least magnitude cannot be larger.
        obtain rfl : magnitude = 1 := by omega
        have beyond : 2 ^ 63 / (quotient.toInt.natAbs + 1) = 0 := by
          rw [leastDivisor, lowest] at above
          exact Nat.eq_zero_of_le_zero (Nat.le_of_succ_le_succ above)
        rw [Nat.div_eq_zero_iff] at beyond
        omega
    simp only [div?_word nonzero other, Option.bind_some]
    rfl

/-- Divisors are found without leaving the machine types. -/
theorem divisors?_eq_some {quotient : Int64} (nontrivial : quotient ≠ 0) (dividend : Int64) :
    divisors? dividend quotient = some (divisorCandidates dividend quotient).toList := by
  -- Bounds of the two words, for the arithmetic of the machine types below.
  have least := dividend.le_toInt
  have greatest := dividend.toInt_lt
  have leastQuotient := quotient.le_toInt
  have greatestQuotient := quotient.toInt_lt
  have positive : quotient.toInt.natAbs ≠ 0 := Int.natAbs_ne_zero.2 (toInt_ne_zero nontrivial)
  -- Dividing and adding one keep magnitudes in range, so both bounds of the search are found.
  have upper : Width.magnitude.div? dividend.toInt.natAbs quotient.toInt.natAbs =
      some (greatestDivisor dividend quotient : Int) :=
    div?_magnitude positive (by omega)
  have next : Width.magnitude.add? quotient.toInt.natAbs 1 =
      some ((quotient.toInt.natAbs + 1 : Nat) : Int) := add?_magnitude (by omega)
  have below : Width.magnitude.div? dividend.toInt.natAbs (quotient.toInt.natAbs + 1 : Nat) =
      some ((dividend.toInt.natAbs / (quotient.toInt.natAbs + 1) : Nat) : Int) :=
    div?_magnitude (Nat.succ_ne_zero _) (by omega)
  have smaller := Nat.div_le_self dividend.toInt.natAbs (quotient.toInt.natAbs + 1)
  have lower : Width.magnitude.add? (dividend.toInt.natAbs / (quotient.toInt.natAbs + 1) : Nat) 1 =
      some (leastDivisor dividend quotient : Int) := add?_magnitude (by omega)
  -- Every magnitude between the bounds is tried with success.
  have found : (List.range' (leastDivisor dividend quotient)
      (greatestDivisor dividend quotient + 1 - leastDivisor dividend quotient)).mapM
        (divisorAt? dividend quotient) =
      some ((List.range' (leastDivisor dividend quotient)
        (greatestDivisor dividend quotient + 1 - leastDivisor dividend quotient)).map
          (divisor? dividend quotient)) := by
    refine mapM_eq_some_map fun magnitude member => ?_
    have within := List.mem_range'_1.1 member
    exact divisorAt?_eq_some (by omega) (by omega)
  unfold divisors?
  simp only [Option.bind_eq_bind]
  rw [hold?_natAbs, Option.bind_some, hold?_natAbs, Option.bind_some, upper, Option.bind_some, next,
    Option.bind_some, below, Option.bind_some, lower, Option.bind_some, Int.toNat_natCast,
    Int.toNat_natCast, found, Option.bind_some, divisorCandidates, LazyList.toList_scan,
    List.filterMap_map]
  rfl

end Safety

/--
The operands of a division come in order, and the search for them never leaves the machine range.

Dividends are found by increasing distance from the product of quotient and divisor, the larger of two at the
same distance first. Divisors are found by increasing magnitude, all of them with one sign. Carried out in
machine types, with every sum, difference, negative and quotient checked for overflow and for a divisor of
zero, both searches find the same operands.
-/
theorem division_candidates_ordered :
    (∀ divisor quotient : Int64, divisor ≠ 0 → ∃ words : List Int64,
      (dividendCandidates divisor quotient).toList = words.map .int ∧
      words.Pairwise (Nearer (quotient.toInt * divisor.toInt)) ∧
      dividends? divisor quotient = some (words.map .int)) ∧
    ∀ dividend quotient : Int64, quotient ≠ 0 → ∃ words : List Int64,
      (divisorCandidates dividend quotient).toList = words.map .int ∧
      ((∀ w ∈ words, 0 < w.toInt) ∨ ∀ w ∈ words, w.toInt < 0) ∧
      (words.Pairwise fun w v => w.toInt.natAbs < v.toInt.natAbs) ∧
      divisors? dividend quotient = some (words.map .int) := by
  refine ⟨fun divisor quotient nonzero => ?_, fun dividend quotient nontrivial => ?_⟩
  · -- The order is that of the candidates, and the checked search finds the same ones.
    obtain ⟨words, listed, nearer⟩ := exists_dividends_nearer divisor quotient
    exact ⟨words, listed, nearer, listed ▸ dividends?_eq_some nonzero quotient⟩
  · obtain ⟨words, listed, sign, smaller⟩ := exists_divisors_smaller dividend quotient
    exact ⟨words, listed, sign, smaller, listed ▸ divisors?_eq_some nontrivial dividend⟩

/-- Six, seven and eight by three are two, and so is twelve by five and by six. -/
theorem division_candidates_ordered_two :
    (∃ words : List Int64, ([.int 6, .int 7, .int 8] : List (Term Var)) = words.map .int ∧
      words.Pairwise (Nearer 6) ∧ dividends? 3 2 = some (words.map .int)) ∧
    ∃ words : List Int64, ([.int 5, .int 6] : List (Term Var)) = words.map .int ∧
      ((∀ w ∈ words, 0 < w.toInt) ∨ ∀ w ∈ words, w.toInt < 0) ∧
      (words.Pairwise fun w v => w.toInt.natAbs < v.toInt.natAbs) ∧
      divisors? 12 2 = some (words.map .int) := by
  obtain ⟨dividends, divisors⟩ := division_candidates_ordered
  exact ⟨dividends 3 2 (by decide), divisors 12 2 (by decide)⟩

end Relational
