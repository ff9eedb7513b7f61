import Relational.Arithmetic.Candidates

/-!
The search for operands of a division, carried out in machine types with every operation checked.

A checked search has no answer as soon as an operation leaves its type or divides by zero.
-/

namespace Relational

/-- The machine types that a search for operands works with. -/
inductive Width where
  /-- Machine words, signed and of 64 bits. -/
  | word
  /-- Magnitudes of machine words, unsigned and of 64 bits. -/
  | magnitude
  /-- Sums of machine words, signed and of 128 bits. -/
  | wide

namespace Width

/-- The least integer of a machine type. -/
def least : Width → Int
  | .word => -9223372036854775808
  | .magnitude => 0
  | .wide => -170141183460469231731687303715884105728

/-- The greatest integer of a machine type. -/
def greatest : Width → Int
  | .word => 9223372036854775807
  | .magnitude => 18446744073709551615
  | .wide => 170141183460469231731687303715884105727

/-- An integer as a value of a machine type, unless it is out of range. -/
def hold? (width : Width) (n : Int) : Option Int :=
  if width.least ≤ n ∧ n ≤ width.greatest then some n else none

/-- The sum of two values of a machine type, unless it overflows. -/
def add? (width : Width) (a b : Int) : Option Int :=
  width.hold? (a + b)

/-- The difference of two values of a machine type, unless it overflows or underflows. -/
def sub? (width : Width) (a b : Int) : Option Int :=
  width.hold? (a - b)

/-- The negative of a value of a machine type, unless it overflows or underflows. -/
def neg? (width : Width) (a : Int) : Option Int :=
  width.hold? (-a)

/-- The quotient of two values of a machine type, unless it overflows or the divisor is zero. -/
def div? (width : Width) (a b : Int) : Option Int :=
  if b = 0 then none else width.hold? (a.tdiv b)

end Width

/-- The offsets at a distance, the larger of two first, unless an operation leaves its machine type. -/
def offsetsAt? (distance : Nat) : Option (List Int) := do
  let distance ← Width.magnitude.hold? distance
  let above ← Width.wide.hold? distance
  if above = 0 then
    return [above]
  let below ← Width.wide.neg? above
  return [above, below]

/-- The dividend at an offset, if it is one, unless an operation leaves its machine type. -/
def dividendAt? (divisor quotient base : Int64) (offset : Int) : Option (Option (Term Var)) := do
  let place ← Width.wide.add? base.toInt offset
  match word? place with
  | some x =>
    let back ← Width.word.div? x.toInt divisor.toInt
    return if back = quotient.toInt then some (.int x) else none
  | none => return none

/--
The dividends of a quotient, found by increasing distance from the product.

There is no answer if any operation on the way leaves its machine type, but for the product itself, which
is found to be out of range before anything else is done.
-/
def dividends? (divisor quotient : Int64) : Option (List (Term Var)) :=
  match word? (quotient.toInt * divisor.toInt) with
  | some base => do
    let magnitude ← Width.magnitude.hold? divisor.toInt.natAbs
    let spread ← Width.magnitude.sub? magnitude 1
    let offsets ← (List.range (spread.toNat + 1)).mapM offsetsAt?
    let found ← offsets.flatten.mapM (dividendAt? divisor quotient base)
    return found.filterMap id
  | none => some []

/-- A magnitude with the sign of a divisor, unless an operation leaves its machine type. -/
def signed? (dividend quotient : Int64) (magnitude : Nat) : Option Int := do
  let magnitude ← Width.magnitude.hold? magnitude
  let above ← Width.wide.hold? magnitude
  if dividend < 0 ↔ quotient < 0 then some above else Width.wide.neg? above

/-- The divisor of a magnitude, if it is one, unless an operation leaves its machine type. -/
def divisorAt? (dividend quotient : Int64) (magnitude : Nat) : Option (Option (Term Var)) := do
  let place ← signed? dividend quotient magnitude
  match word? place with
  | some x =>
    let back ← Width.word.div? dividend.toInt x.toInt
    return if back = quotient.toInt then some (.int x) else none
  | none => return none

/--
The divisors of a quotient, found by increasing magnitude.

There is no answer if any operation on the way leaves its machine type.
-/
def divisors? (dividend quotient : Int64) : Option (List (Term Var)) := do
  let n ← Width.magnitude.hold? dividend.toInt.natAbs
  let q ← Width.magnitude.hold? quotient.toInt.natAbs
  let greatest ← Width.magnitude.div? n q
  let next ← Width.magnitude.add? q 1
  let below ← Width.magnitude.div? n next
  let least ← Width.magnitude.add? below 1
  let found ← (List.range' least.toNat (greatest.toNat + 1 - least.toNat)).mapM
    (divisorAt? dividend quotient)
  return found.filterMap id

end Relational
