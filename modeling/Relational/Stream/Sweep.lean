import Relational.Stream.Basic

/-!
Sweeping over streams: all realized items are split off, mapped, and put back from the last to the first.

Sweeping gives the very streams that going from node to node gives.
-/

namespace Relational

variable {σ τ ρ α β γ : Type}

/-- Puts the images of some items in front of a stream, that of the last item first. -/
def sweepBack (image : α → γ) (put : γ → Stream τ β → Stream τ β) (heads : List α)
    (rest : Stream τ β) : Stream τ β :=
  (heads.map image).reverse.foldl (fun tail next => put next tail) rest

/-- The image of the first item is put back last. -/
theorem sweepBack_cons (image : α → γ) (put : γ → Stream τ β → Stream τ β) (head : α) (heads : List α)
    (rest : Stream τ β) :
    sweepBack image put (head :: heads) rest = put (image head) (sweepBack image put heads rest) := by
  -- Reversing the images puts the first one at the end, where the loop comes last.
  simp [sweepBack]

namespace Stream

/-- Moves the realized items of a stream behind those already `found`, up to the first other node. -/
def splitOnto (found : List α) : Stream σ α → List α × Stream σ α
  | .mature a rest => rest.splitOnto (found ++ [a])
  | s => (found, s)

/-- Maps the realized items of a stream and puts the images back in front of what the remainder becomes. -/
def sweep (image : α → γ) (put : γ → Stream τ β → Stream τ β) (become : Stream σ α → Stream τ β)
    (s : Stream σ α) : Stream τ β :=
  sweepBack image put (s.splitOnto []).1 (become (s.splitOnto []).2)

/-- The items of both streams in turns, by sweeping over the left one if there is a right one at all. -/
def sweepAppend (s t : Stream σ α) : Stream σ α :=
  if t.isEmpty then s
  else s.sweep id .mature fun
    | .immature work => .immature (.merge t work)
    | _ => t

/--
Every item replaced by a stream, where all realized items are mapped before any image is joined.

Suspended work is left to `later`, which says how to name the work of mapping what it resumes to.
-/
def sweepFlatMap (later : Suspension σ α → Suspension τ β) (g : α → Stream τ β) :
    Stream σ α → Stream τ β :=
  sweep g sweepAppend fun
    | .immature work => .immature (later work)
    | _ => .empty

/-- Every item replaced by its image, where all realized items are mapped at once. -/
def sweepMap (later : Suspension σ α → Suspension τ β) (f : α → β) : Stream σ α → Stream τ β :=
  sweep f .mature fun
    | .immature work => .immature (later work)
    | _ => .empty

/--
What the jobs of a stream with other items do: map what some suspended work resumes to.

The images of the items may have jobs of their own.
-/
def mappingJob (meaning : σ → Stream σ α) (g : α → Stream (Suspension σ α ⊕ ρ) β)
    (own : ρ → Stream (Suspension σ α ⊕ ρ) β) :
    Suspension σ α ⊕ ρ → Stream (Suspension σ α ⊕ ρ) β
  | .inl work => (work.resume meaning).sweepFlatMap (fun work => .source (.inl work)) g
  | .inr job => own job

/-- What was found before stays in front of what is split off. -/
theorem splitOnto_eq (found : List α) (s : Stream σ α) :
    s.splitOnto found = (found ++ (s.splitOnto []).1, (s.splitOnto []).2) := by
  induction s generalizing found with
  | mature a rest ih =>
    -- Both loops go on with the rest, one of them with more found before.
    rw [splitOnto, splitOnto, ih (found ++ [a]), ih ([] ++ [a])]
    simp
  | _ => simp [splitOnto]

/-- Sweeping over a realized item puts its image in front of the swept rest. -/
theorem sweep_mature (image : α → γ) (put : γ → Stream τ β → Stream τ β)
    (become : Stream σ α → Stream τ β) (a : α) (rest : Stream σ α) :
    sweep image put become (.mature a rest) = put (image a) (sweep image put become rest) := by
  -- Splitting finds the item first, and the others behind it as if nothing had been found.
  rw [sweep, splitOnto, splitOnto_eq]
  exact sweepBack_cons ..

/-- Sweeping joins two streams as going from node to node does. -/
theorem sweepAppend_eq (s t : Stream σ α) : sweepAppend s t = s ++ t := by
  by_cases ended : t.isEmpty = true
  · -- Nothing is swept over if there is nothing to put behind it.
    cases t with
    | empty => exact (append_empty s).symm
    | _ => cases ended
  · rw [sweepAppend, if_neg ended]
    induction s with
    | empty => exact (empty_append t).symm
    | mature a rest ih => rw [sweep_mature, ih, mature_append, id]
    | immature work =>
      -- The recursion looks at the right side first, so its kind has to be known.
      cases t with
      | empty => exact absurd rfl ended
      | _ => rfl

/-- Sweeping maps a realized item on its own. -/
theorem sweepFlatMap_mature (later : Suspension σ α → Suspension τ β) (g : α → Stream τ β) (a : α)
    (rest : Stream σ α) : sweepFlatMap later g (.mature a rest) = g a ++ sweepFlatMap later g rest := by
  -- Joining by sweeping is joining, so the image is put in front by the operation itself.
  rw [sweepFlatMap, sweep_mature, sweepAppend_eq]

/-- Replacing items is mapping them to streams of one item each. -/
theorem sweepMap_eq_sweepFlatMap (later : Suspension σ α → Suspension τ β) (f : α → β) (s : Stream σ α) :
    sweepMap later f s = sweepFlatMap later (fun a => singleton (f a)) s := by
  -- Both loops go along the same realized items, and differ in how they put them back.
  rw [sweepMap]
  induction s with
  | mature a rest ih =>
    rw [sweep_mature, ih, sweepFlatMap_mature, singleton, mature_append, empty_append]
  | _ => rfl

/-- Sweeping maps a stream as going from node to node does. -/
theorem sweepFlatMap_eq (g : α → Stream σ α) (s : Stream σ α) :
    sweepFlatMap (.bind · g) g s = s.flatMap g := by
  -- What suspended work is named is the same on both sides, so only items are compared.
  induction s with
  | mature a rest ih => rw [sweepFlatMap_mature, ih, flatMap]
  | _ => rfl

/-- Sweeping replaces items as going from node to node does. -/
theorem sweepMap_eq (f : α → α) (s : Stream σ α) :
    sweepMap (.bind · fun a => singleton (f a)) f s = s.map f := by
  -- Both sides are mappings to streams of one item.
  rw [sweepMap_eq_sweepFlatMap, sweepFlatMap_eq, flatMap_singleton_comp]

end Stream

namespace LazyList

/-- Moves the realized items of a lazy list behind those already `found`, up to the first delay. -/
def splitOnto (found : List β) : LazyList β → List β × LazyList β
  | .cons b rest => rest.splitOnto (found ++ [b])
  | items => (found, items)

/-- Every item of a lazy list replaced by a stream, by sweeping over the realized items. -/
def sweepFlatMap (g : β → Stream σ α) (items : LazyList β) : Stream σ α :=
  sweepBack g Stream.sweepAppend (items.splitOnto []).1 <|
    match (items.splitOnto []).2 with
    | .delay later => .immature (.delay fun _ => (later ()).flatMap g)
    | _ => .empty

/-- What was found before stays in front of what is split off. -/
theorem splitOnto_eq (found : List β) (items : LazyList β) :
    items.splitOnto found = (found ++ (items.splitOnto []).1, (items.splitOnto []).2) := by
  -- Both loops go on with the rest, one of them with more found before.
  induction items generalizing found with
  | cons b rest ih =>
    rw [splitOnto, splitOnto, ih (found ++ [b]), ih ([] ++ [b])]
    simp
  | _ => simp [splitOnto]

/-- Sweeping maps a lazy list as going from item to item does. -/
theorem sweepFlatMap_eq (g : β → Stream σ α) (items : LazyList β) :
    items.sweepFlatMap g = items.flatMap g := by
  -- A realized item is split off first, and put back last.
  induction items with
  | cons b rest ih =>
    rw [flatMap, ← ih, ← Stream.sweepAppend_eq, sweepFlatMap, splitOnto, splitOnto_eq]
    exact sweepBack_cons ..
  | _ => rfl

end LazyList

end Relational
