/-! Finite lists that may put off computing a part of themselves. -/

namespace Relational

/--
A finite list with marked places where the rest is computed only when it is asked for.

The places are part of the value: a reader of the list meets each of them as a separate step.
-/
inductive LazyList (α : Type) where
  | nil
  | cons (head : α) (tail : LazyList α)
  | delay (rest : Unit → LazyList α)

namespace LazyList

variable {α β : Type}

/-- The list of one item. -/
def single (a : α) : LazyList α :=
  .cons a .nil

/-- The items of a list with nothing put off. -/
def ofList (items : List α) : LazyList α :=
  items.foldr .cons .nil

/-- All items, with every delay run. -/
def toList : LazyList α → List α
  | .nil => []
  | .cons a rest => a :: rest.toList
  | .delay rest => (rest ()).toList

/--
The defined values of `f` at `start`, `start + 1`, … through `count` places.

The first value is found at once, and the search for each later one waits behind its own delay.
-/
def scan (f : Nat → Option α) : (count start : Nat) → LazyList α
  | 0, _ => .nil
  | count + 1, start =>
    match f start with
    | some a => .cons a (.delay fun _ => scan f count (start + 1))
    | none => scan f count (start + 1)

/-- Running the delays of a plain list changes nothing. -/
@[simp] theorem toList_ofList (items : List α) : (ofList items).toList = items := by
  -- A plain list has no delays, so its items stand one behind the other.
  induction items with
  | nil => rfl
  | cons a items ih => exact congrArg (a :: ·) ih

/-- A scan lists the defined values of its range in order. -/
theorem toList_scan (f : Nat → Option α) (count start : Nat) :
    (scan f count start).toList = (List.range' start count).filterMap f := by
  induction count generalizing start with
  | zero => rfl
  | succ count ih =>
    -- The first place either contributes its value or nothing, and the rest follows.
    cases found : f start <;> simp [scan, toList, List.range'_succ, found, ih]

end LazyList

end Relational
