import Relational.LazyList

/-! Lazy streams whose suspended parts take turns, so that no endless part hides another. -/

namespace Relational

mutual

/--
A lazy sequence of items of type `α`.

An immature stream holds work that has not been done yet, and may never end.
-/
inductive Stream (σ α : Type) where
  | empty
  | mature (head : α) (tail : Stream σ α)
  | immature (work : Suspension σ α)

/--
Work that gives a stream when it is resumed.

Endless work is given by a job, whose meaning is supplied when the work is resumed.
Everything else is put together from smaller work.
-/
inductive Suspension (σ α : Type) where
  /-- A job, named rather than described, so that it can come back to itself. -/
  | source (job : σ)
  /-- A stream that is computed when it is asked for. -/
  | delay (rest : Unit → Stream σ α)
  /-- The stream `next`, followed in turns by the resumed work. -/
  | merge (next : Stream σ α) (work : Suspension σ α)
  /-- The resumed work with every item replaced by a stream. -/
  | bind (work : Suspension σ α) (g : α → Stream σ α)

end

namespace Stream

variable {σ α : Type}

/-- A property holds of every stream if it holds along the realized items up to the first suspension. -/
@[elab_as_elim, induction_eliminator]
theorem spineInduction {motive : Stream σ α → Prop} (empty : motive .empty)
    (mature : ∀ head tail, motive tail → motive (.mature head tail))
    (immature : ∀ work, motive (.immature work)) (s : Stream σ α) : motive s :=
  -- Nothing is asked of suspended work, so its part of the recursion is trivial.
  @Stream.rec σ α motive (fun _ => True) empty
    (fun head tail => mature head tail) (fun work _ => immature work)
    (fun _ => trivial) (fun _ _ => trivial) (fun _ _ _ _ => trivial) (fun _ _ _ _ => trivial) s

/-- The stream of one item. -/
def singleton (a : α) : Stream σ α :=
  .mature a .empty

/-- The stream of the given items, all of them realized. -/
def ofList (items : List α) : Stream σ α :=
  items.foldr .mature .empty

/-- The stream of the items of a finite lazy list, suspended where the list is delayed. -/
def ofLazyList : LazyList α → Stream σ α
  | .nil => .empty
  | .cons a rest => .mature a (ofLazyList rest)
  | .delay rest => .immature (.delay fun _ => ofLazyList (rest ()))

/--
The items of both streams, in turns.

While the left stream is realized its items come first.
Once it is suspended, the right stream takes the lead when the result is resumed.
-/
def append : Stream σ α → Stream σ α → Stream σ α
  | s, .empty => s
  | .empty, t => t
  | .mature a rest, t => .mature a (rest.append t)
  | .immature work, t => .immature (.merge t work)

instance : Append (Stream σ α) := ⟨append⟩

/-- Every item replaced by the stream `g` gives for it, the streams taking turns. -/
def flatMap (g : α → Stream σ α) : Stream σ α → Stream σ α
  | .empty => .empty
  | .mature a rest => g a ++ rest.flatMap g
  | .immature work => .immature (.bind work g)

/-- Every item replaced by its image, with every suspension kept in place. -/
def map (f : α → α) : Stream σ α → Stream σ α
  | .empty => .empty
  | .mature a rest => .mature (f a) (rest.map f)
  | .immature work => .immature (.bind work fun a => .singleton (f a))

/-- Whether a stream is known to have no items. -/
def isEmpty : Stream σ α → Bool
  | .empty => true
  | _ => false

/-- How many items a stream has, unless some of it is still suspended. -/
def length? : Stream σ α → Option Nat
  | .empty => some 0
  | .mature _ rest => rest.length?.map (· + 1)
  | .immature _ => none

/-- Whether two streams are realized to the end and have equal items. -/
def realizedEq [BEq α] : Stream σ α → Stream σ α → Bool
  | .empty, .empty => true
  | .mature a rest, .mature b other => a == b && rest.realizedEq other
  | _, _ => false

/-- What is left of a stream behind its first realized item. -/
def tail : Stream σ α → Stream σ α
  | .mature _ rest => rest
  | s => s

/-- The texts of the realized items, and dots if the rest is suspended. -/
def parts (itemText : α → String) : Stream σ α → List String
  | .empty => []
  | .mature a rest => itemText a :: rest.parts itemText
  | .immature _ => ["..."]

/-- The text of a stream whose items are written by `itemText`. -/
def text (itemText : α → String) (s : Stream σ α) : String :=
  "(" ++ " ".intercalate (s.parts itemText) ++ ")"

end Stream

/-- The stream that suspended work gives, with jobs unfolded by `unfold`. -/
def Suspension.resume {σ α : Type} (unfold : σ → Stream σ α) : Suspension σ α → Stream σ α
  | .source job => unfold job
  | .delay rest => rest ()
  | .merge next work => next ++ work.resume unfold
  | .bind work g => (work.resume unfold).flatMap g

/-- One step further into a suspended stream; any other stream stays as it is. -/
def Stream.force {σ α : Type} (unfold : σ → Stream σ α) : Stream σ α → Stream σ α
  | .immature work => work.resume unfold
  | s => s

namespace LazyList

/-- Every item of a finite lazy list replaced by a stream, the streams taking turns. -/
def flatMap {σ α β : Type} (g : α → Stream σ β) : LazyList α → Stream σ β
  | .nil => .empty
  | .cons a rest => g a ++ rest.flatMap g
  | .delay rest => .immature (.delay fun _ => (rest ()).flatMap g)

end LazyList

namespace Stream

variable {σ α : Type}

/-- Nothing appended on the right leaves a stream as it is. -/
@[simp] theorem append_empty (s : Stream σ α) : s ++ (.empty : Stream σ α) = s := by
  cases s <;> rfl

/-- Nothing in front of a stream leaves it as it is. -/
@[simp] theorem empty_append (t : Stream σ α) : (.empty : Stream σ α) ++ t = t := by
  cases t <;> rfl

/-- A realized item in front stays in front. -/
@[simp] theorem mature_append (a : α) (rest t : Stream σ α) :
    (Stream.mature a rest) ++ t = .mature a (rest ++ t) := by
  -- The shortcut for an empty right side agrees with the general rule.
  cases t with
  | empty => rw [append_empty, append_empty]
  | mature b other => rfl
  | immature work => rfl

/-- A stream of one item is replaced by the stream of that item. -/
@[simp] theorem flatMap_singleton (g : α → Stream σ α) (a : α) :
    (singleton a).flatMap g = g a := by
  -- The image is joined with nothing behind it.
  show g a ++ (.empty : Stream σ α) = g a
  exact append_empty _

/-- Replacing items one by one is replacing each of them by a stream of one item. -/
theorem flatMap_singleton_comp (f : α → α) (s : Stream σ α) :
    (s.flatMap fun a => singleton (f a)) = s.map f := by
  -- The rest behind an item is mapped in the same way, and a suspension keeps what it is mapped by.
  induction s with
  | empty => rfl
  | mature a rest ih => rw [flatMap, ih, singleton, mature_append, empty_append, map]
  | immature work => rfl

end Stream

end Relational
