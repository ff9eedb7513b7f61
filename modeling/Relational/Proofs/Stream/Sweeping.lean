import Relational.Proofs.Stream.Lockstep
import Relational.Relation
import Relational.Stream.Sweep

/-! Sweeping node by node: what the loops over realized items give however the streams go on. -/

namespace Relational

variable {σ τ α β : Type}

namespace Stream

/-- Two streams have the same nodes, however far they are forced: the same items, suspensions and end. -/
def SameNodes (meaning : σ → Stream σ α) (s t : Stream σ α) : Prop :=
  ∀ n, Lockstep meaning meaning (· = ·) n s t

/--
What joining two streams gives, node by node.

A suspended left side makes the whole suspended, and resumes behind the right side.
-/
structure JoinsByNode (meaning : σ → Stream σ α) (join : Stream σ α → Stream σ α → Stream σ α) :
    Prop where
  empty_left : ∀ t, join .empty t = t
  empty_right : ∀ s, join s .empty = s
  mature : ∀ a rest t, join (.mature a rest) t = .mature a (join rest t)
  immature : ∀ work t, ∃ joined, join (.immature work) t = .immature joined ∧
    joined.resume meaning = join t (work.resume meaning)

/--
What replacing every item by the stream `g` gives for it comes to, node by node.

A suspension stays one, and resumes to what the resumed work is mapped to.
-/
structure MapsByNode (meaning : σ → Stream σ α) (other : τ → Stream τ β)
    (join : Stream τ β → Stream τ β → Stream τ β) (g : α → Stream τ β)
    (mapped : Stream σ α → Stream τ β) : Prop where
  empty : mapped .empty = .empty
  mature : ∀ a rest, mapped (.mature a rest) = join (g a) (mapped rest)
  immature : ∀ work, ∃ later, mapped (.immature work) = .immature later ∧
    later.resume other = mapped (work.resume meaning)

/-- Joining by sweeping goes from node to node. -/
theorem joinsByNode_sweepAppend (meaning : σ → Stream σ α) : JoinsByNode meaning sweepAppend := by
  -- Joining by sweeping is joining, which is known node by node.
  have joins : sweepAppend = fun s t : Stream σ α => s ++ t := funext₂ sweepAppend_eq
  rw [joins]
  exact ⟨empty_append, append_empty, mature_append, immature_append meaning⟩

/-- Mapping by sweeping goes from node to node if suspended work is named for what it is mapped to. -/
theorem mapsByNode_sweepFlatMap {meaning : σ → Stream σ α} {other : τ → Stream τ β}
    {later : Suspension σ α → Suspension τ β} {g : α → Stream τ β}
    (named : ∀ work, (later work).resume other = sweepFlatMap later g (work.resume meaning)) :
    MapsByNode meaning other sweepAppend g (sweepFlatMap later g) where
  empty := rfl
  mature := fun a rest => by rw [sweepFlatMap_mature, sweepAppend_eq]
  immature := fun work => ⟨later work, rfl, named work⟩

/-- Replacing every item by the stream of that item changes no node. -/
theorem sameNodes_flatMap_singleton (meaning : σ → Stream σ α) (s : Stream σ α) :
    SameNodes meaning (s.flatMap singleton) s := by
  intro n
  -- Only suspensions use up forcings, and what they resume to is mapped in the same way.
  induction n using Nat.strongRecOn generalizing s with
  | ind n fewer =>
    induction s with
    | empty => exact .empty
    | mature a rest ih =>
      rw [flatMap, singleton, mature_append, empty_append]
      exact .mature rfl ih
    | immature work =>
      cases n with
      | zero => exact .unforced
      | succ n => exact .forced (fewer n (Nat.lt_succ_self n) (work.resume meaning))

/--
Sweeping over streams is going from node to node, however the streams go on behind their suspensions.

Streams joined and mapped by sweeping, to other items or to the same ones, are what they are if every node
is joined or mapped on its own, and so are lazy lists. A stream of one item is mapped to the image of that
item, mapping items to streams of themselves changes no node, replacing items is mapping them to streams of
one item each, and a goal gives the same stream with a label as without.
-/
theorem sweeps_go_by_node :
    -- What the loops give at every node, for the same items and for other ones.
    (∀ (σ α : Type) (meaning : σ → Stream σ α),
      JoinsByNode meaning sweepAppend ∧
      (∀ g, MapsByNode meaning meaning sweepAppend g (sweepFlatMap (.bind · g) g)) ∧
      (∀ (ρ β : Type) (g : α → Stream (Suspension σ α ⊕ ρ) β) own,
        MapsByNode meaning (mappingJob meaning g own) sweepAppend g
          (sweepFlatMap (fun work => .source (.inl work)) g)) ∧
      ∀ s : Stream σ α, SameNodes meaning (sweepFlatMap (.bind · singleton) singleton s) s) ∧
    -- How mapping treats one item, and items replaced by items.
    (∀ (σ τ α β : Type) (later : Suspension σ α → Suspension τ β),
      (∀ (g : α → Stream τ β) a, sweepFlatMap later g (singleton a) = g a) ∧
      ∀ (f : α → β) s, sweepMap later f s = sweepFlatMap later (fun a => singleton (f a)) s) ∧
    -- The loops against the operations that the search is made of.
    (∀ σ α : Type,
      (∀ s t : Stream σ α, sweepAppend s t = s ++ t) ∧
      (∀ (g : α → Stream σ α) s, sweepFlatMap (.bind · g) g s = s.flatMap g) ∧
      (∀ (f : α → α) (s : Stream σ α), sweepMap (.bind · fun a => singleton (f a)) f s = s.map f) ∧
      ∀ (β : Type) (g : β → Stream σ α) (items : LazyList β), items.sweepFlatMap g = items.flatMap g) ∧
    ∀ (p : Program) (label : String) (g : Goal) (env : Env) (s : State),
      SameNodes p.unfold ((Goal.trace label g).apply env s) (g.apply env s) := by
  refine ⟨fun σ α meaning =>
      ⟨joinsByNode_sweepAppend meaning, fun g => ?_, fun ρ β g own => ?_, fun s => ?_⟩,
    fun σ τ α β later => ⟨fun g a => ?_, sweepMap_eq_sweepFlatMap later⟩,
    fun σ α => ⟨sweepAppend_eq, sweepFlatMap_eq, sweepMap_eq, fun _ => LazyList.sweepFlatMap_eq⟩,
    fun p label g env s => ?_⟩
  · -- Work that maps is resumed by the recursive operation, which the loop agrees with.
    exact mapsByNode_sweepFlatMap fun work => (sweepFlatMap_eq g (work.resume meaning)).symm
  · -- A job is resumed by the loop itself.
    exact mapsByNode_sweepFlatMap fun _ => rfl
  · rw [sweepFlatMap_eq]
    exact sameNodes_flatMap_singleton meaning s
  · rw [singleton, sweepFlatMap_mature]
    exact append_empty (g a)
  · -- Labelled answers are given back one by one.
    rw [Goal.apply, ← flatMap_singleton_comp]
    exact sameNodes_flatMap_singleton p.unfold (g.apply env s)

end Stream

end Relational
