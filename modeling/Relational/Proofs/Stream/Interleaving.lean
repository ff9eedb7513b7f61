import Relational.Proofs.Stream.Position

/-! Joined streams: an interleaving of both, in which neither waits for more than its turn. -/

namespace Relational.Stream

variable {σ α : Type}

/--
Where an item of two joined streams comes from: a position on the left or one on the right.

The rules follow the way into the joined stream, where the sides change places at every suspension.
-/
inductive Origin (meaning : σ → Stream σ α) :
    Stream σ α → Stream σ α → (position : Nat) → Nat ⊕ Nat → Prop where
  | head {a : α} {rest t : Stream σ α} : Origin meaning (.mature a rest) t 0 (.inl 0)
  /-- Behind an item of the left side, later items of that side have one position less to go. -/
  | next {m : Nat} {o : Nat ⊕ Nat} {a : α} {rest t : Stream σ α}
      (later : Origin meaning rest t m o) :
      Origin meaning (.mature a rest) t (m + 1) (o.map (· + 1) id)
  /-- Behind a suspension the right side is in the lead. -/
  | turn {m : Nat} {o : Nat ⊕ Nat} {work : Suspension σ α} {t : Stream σ α}
      (later : Origin meaning t (work.resume meaning) m o) :
      Origin meaning (.immature work) t m o.swap
  /-- When the left side has ended, every item is the right side's own. -/
  | ended {m : Nat} {t : Stream σ α} : Origin meaning .empty t m (.inr m)

/-- Of two places on the same side the first comes earlier; different sides are not compared. -/
def InOrder : Nat ⊕ Nat → Nat ⊕ Nat → Prop
  | .inl i, .inl j => i < j
  | .inr i, .inr j => i < j
  | _, _ => True

/-- One position more on the left changes nothing about the order. -/
theorem InOrder.map_succ {o p : Nat ⊕ Nat} (ordered : InOrder o p) :
    InOrder (o.map (· + 1) id) (p.map (· + 1) id) := by
  -- Positions on different sides are always in order, so only the same side is moved.
  cases o with
  | inl i =>
    cases p with
    | inl j => exact Nat.succ_lt_succ ordered
    | inr j => trivial
  | inr i =>
    cases p with
    | inl j => trivial
    | inr j => exact ordered

/-- Neither does a change of sides. -/
theorem InOrder.swap {o p : Nat ⊕ Nat} (ordered : InOrder o p) : InOrder o.swap p.swap := by
  -- The sides change for both positions at once.
  cases o with
  | inl i =>
    cases p with
    | inl j => exact ordered
    | inr j => trivial
  | inr i =>
    cases p with
    | inl j => trivial
    | inr j => exact ordered

variable {meaning : σ → Stream σ α} {a : α} {i m n k : Nat} {s t : Stream σ α} {o p : Nat ⊕ Nat}

/-- An item of two joined streams has one origin. -/
theorem Origin.unique (origin : Origin meaning s t m o) (again : Origin meaning s t m p) :
    o = p := by
  -- The leading side and the position leave one rule at every step.
  induction origin generalizing p with
  | head => cases again; rfl
  | next _ ih =>
    cases again with
    | next later => rw [ih later]
  | turn _ ih =>
    cases again with
    | turn later => rw [ih later]
  | ended => cases again; rfl

/-- Items of one side keep their order when the sides are joined. -/
theorem Origin.inOrder (origin : Origin meaning s t m o) (other : Origin meaning s t n p)
    (before : m < n) : InOrder o p := by
  -- Both origins follow the same way into the streams, so they are compared rule by rule.
  induction origin generalizing n p with
  | head =>
    cases other with
    | head => omega
    | @next _ q _ _ _ later =>
      -- The first item is on the left, and comes before whatever else is there.
      cases q with
      | inl j => exact Nat.succ_pos j
      | inr j => trivial
  | next _ ih =>
    cases other with
    | head => omega
    | next later => exact (ih later (by omega)).map_succ
  | turn _ ih =>
    -- A turn changes the sides of both origins.
    cases other with
    | turn later => exact (ih later before).swap
  | ended =>
    cases other with
    | ended => exact before

/-- An item of two joined streams is an item of one of them, and was no further away there. -/
theorem ItemAt.of_append (there : ItemAt meaning a m n (s ++ t)) :
    (∃ i k, Origin meaning s t m (.inl i) ∧ ItemAt meaning a i k s ∧ k ≤ n) ∨
      ∃ j k, Origin meaning s t m (.inr j) ∧ ItemAt meaning a j k t ∧ k ≤ n := by
  -- Each forcing swaps the two sides, so both of them stay open while the count goes down.
  induction n using Nat.strongRecOn generalizing s t m with
  | ind n swapped =>
    induction s generalizing m with
    | empty =>
      -- Nothing is on the left, so the positions are those on the right.
      rw [empty_append] at there
      exact .inr ⟨m, n, .ended, there, Nat.le_refl n⟩
    | mature b rest ih =>
      rw [mature_append, itemAt_mature_iff] at there
      rcases there with ⟨rfl, rfl, rfl⟩ | ⟨m, rfl, later⟩
      · -- The item is the first one on the left.
        exact .inl ⟨0, 0, .head, .head, Nat.le_refl 0⟩
      · -- Behind the first item, positions on the left are one further.
        rcases ih later with ⟨i, k, origin, left, bound⟩ | ⟨j, k, origin, right, bound⟩
        · exact .inl ⟨i + 1, k, origin.next, .tail left, bound⟩
        · exact .inr ⟨j, k, origin.next, right, bound⟩
    | immature work =>
      -- The turn goes to the right side, and whatever is on the left waits one forcing more.
      obtain ⟨joined, suspended, resumed⟩ := immature_append meaning work t
      rw [suspended, itemAt_immature_iff, resumed] at there
      obtain ⟨earlier, rfl, later⟩ := there
      rcases swapped earlier (Nat.lt_succ_self earlier) later with
        ⟨j, k, origin, right, bound⟩ | ⟨i, k, origin, left, bound⟩
      · exact .inr ⟨j, k, origin.turn, right, by omega⟩
      · exact .inl ⟨i, k + 1, origin.turn, .forced left, by omega⟩

/-- Every item of two joined streams has an origin. -/
theorem ItemAt.exists_origin (there : ItemAt meaning a m n (s ++ t)) :
    ∃ o, Origin meaning s t m o := by
  -- An origin comes with every item, whichever side it is on.
  rcases there.of_append with ⟨i, _, origin, _⟩ | ⟨j, _, origin, _⟩
  · exact ⟨.inl i, origin⟩
  · exact ⟨.inr j, origin⟩

/-- What is met with a stream in the lead is met one forcing later behind another stream. -/
theorem ItemAt.behind {bound : Nat} (there : ItemAt meaning a i k t) (near : k ≤ bound)
    (leads : ∀ rest, ∃ m n, Origin meaning t rest m (.inl i) ∧
      ItemAt meaning a m n (t ++ rest) ∧ n ≤ bound) (s : Stream σ α) :
    ∃ m n, Origin meaning s t m (.inr i) ∧ ItemAt meaning a m n (s ++ t) ∧ n ≤ bound + 1 := by
  -- Realized items in front take no forcing, so only the first suspension counts.
  induction s with
  | empty => exact ⟨i, k, .ended, by rwa [empty_append], by omega⟩
  | mature b rest ih =>
    obtain ⟨m, n, origin, found, within⟩ := ih
    exact ⟨m + 1, n, origin.next, by rw [mature_append]; exact .tail found, within⟩
  | immature work =>
    -- The first suspension of the other stream puts this one in the lead.
    obtain ⟨joined, suspended, resumed⟩ := immature_append meaning work t
    obtain ⟨m, n, origin, found, within⟩ := leads (work.resume meaning)
    refine ⟨m, n + 1, origin.turn, ?_, by omega⟩
    rw [suspended]
    exact .forced (resumed ▸ found)

/--
An item of the left stream is met in the joined stream, where its position is the one it comes from.

Every forcing of the left side costs at most one of the right side, so the count at most doubles.
-/
theorem ItemAt.append_left (there : ItemAt meaning a i k s) (t : Stream σ α) :
    ∃ m n, Origin meaning s t m (.inl i) ∧ ItemAt meaning a m n (s ++ t) ∧ n ≤ 2 * k := by
  induction there generalizing t with
  | head => exact ⟨0, 0, .head, by rw [mature_append]; exact .head, by omega⟩
  | tail _ ih =>
    obtain ⟨m, n, origin, found, within⟩ := ih t
    exact ⟨m + 1, n, origin.next, by rw [mature_append]; exact .tail found, within⟩
  | @forced i k work later ih =>
    -- Once forced, the left side waits behind the right one with one forcing less to go.
    obtain ⟨joined, suspended, resumed⟩ := immature_append meaning work t
    obtain ⟨m, n, origin, found, within⟩ := later.behind (by omega : k ≤ 2 * k) ih t
    refine ⟨m, n + 1, origin.turn, ?_, by omega⟩
    rw [suspended]
    exact .forced (resumed ▸ found)

/-- An item of the right stream is met as well, after one forcing more than on the left. -/
theorem ItemAt.append_right (there : ItemAt meaning a i k t) (s : Stream σ α) :
    ∃ m n, Origin meaning s t m (.inr i) ∧ ItemAt meaning a m n (s ++ t) ∧ n ≤ 2 * k + 1 :=
  -- Whatever is on the left, it takes one turn to get to the right side.
  there.behind (by omega) there.append_left s

/-- Two streams that end are joined to one that ends, with all items and all suspensions of both. -/
theorem EndsWith.append {xs ys : List α} (left : EndsWith meaning xs n s)
    (right : EndsWith meaning ys k t) :
    ∃ zs, EndsWith meaning zs (n + k) (s ++ t) ∧ zs.Perm (xs ++ ys) := by
  -- The number of suspensions on both sides goes down at each turn.
  induction count : n + k using Nat.strongRecOn generalizing s t xs ys n k with
  | ind total swapped =>
    subst count
    induction left with
    | empty => exact ⟨ys, by simpa using right, .refl _⟩
    | @item xs n a rest later ih =>
      -- The item in front of the left side stays in front.
      obtain ⟨zs, joined, same⟩ := ih swapped
      exact ⟨a :: zs, by rw [mature_append]; exact .item joined, same.cons a⟩
    | @forced xs n work later ih =>
      -- The sides change places, and one suspension on the left is used up.
      obtain ⟨joined, suspended, resumed⟩ := immature_append meaning work t
      obtain ⟨zs, turned, same⟩ := swapped (k + n) (by omega) right later rfl
      refine ⟨zs, ?_, same.trans List.perm_append_comm⟩
      rw [suspended, show n + 1 + k = k + n + 1 by omega]
      exact .forced (resumed ▸ turned)

/-- If two joined streams end, each of them does, and the suspensions of both have been met. -/
theorem EndsWith.of_append {zs : List α} (ends : EndsWith meaning zs n (s ++ t)) :
    ∃ xs ys k l, EndsWith meaning xs k s ∧ EndsWith meaning ys l t ∧ n = k + l := by
  -- Behind each suspension the sides are swapped, and one suspension fewer is left.
  induction n using Nat.strongRecOn generalizing s t zs with
  | ind n swapped =>
    induction s generalizing zs with
    | empty => exact ⟨[], zs, 0, n, .empty, by rwa [empty_append] at ends, by omega⟩
    | mature b rest ih =>
      -- The item in front of the whole is the one in front of the left side.
      rw [mature_append] at ends
      cases ends with
      | item later =>
        obtain ⟨xs, ys, k, l, left, right, count⟩ := ih later
        exact ⟨b :: xs, ys, k, l, .item left, right, count⟩
    | immature work =>
      -- One suspension was met, and it was that of the left side.
      obtain ⟨joined, suspended, resumed⟩ := immature_append meaning work t
      rw [suspended] at ends
      cases ends with
      | @forced _ n _ later =>
        rw [resumed] at later
        obtain ⟨ys, xs, l, k, right, left, count⟩ := swapped n (Nat.lt_succ_self n) later
        exact ⟨xs, ys, k + 1, l, .forced left, right, by omega⟩

/-- Two joined streams end exactly when both do, and then have the suspensions of both. -/
theorem endsAfter_append_iff :
    EndsAfter meaning n (s ++ t) ↔
      ∃ k l, EndsAfter meaning k s ∧ EndsAfter meaning l t ∧ n = k + l := by
  -- The items are forgotten on both sides, and the numbers of suspensions add up.
  refine ⟨fun ends => ?_, fun ends => ?_⟩
  · obtain ⟨zs, ends⟩ := ends
    obtain ⟨xs, ys, k, l, left, right, count⟩ := ends.of_append
    exact ⟨k, l, ⟨xs, left⟩, ⟨ys, right⟩, count⟩
  · obtain ⟨k, l, ⟨xs, left⟩, ⟨ys, right⟩, rfl⟩ := ends
    obtain ⟨zs, joined, _⟩ := left.append right
    exact ⟨zs, joined⟩

/--
A stream has exactly the items of two others, each side in its own order, and met without long delay.

Every position of the stream has an origin, which is a position on the left or one on the right.
-/
structure FairMerge (meaning : σ → Stream σ α) (s t joined : Stream σ α)
    (origin : Nat → Nat ⊕ Nat) : Prop where
  /-- Every item is the one at its origin, where it is met no later. -/
  sound : ∀ {a m n}, ItemAt meaning a m n joined →
    (∃ i k, origin m = .inl i ∧ ItemAt meaning a i k s ∧ k ≤ n) ∨
      ∃ j k, origin m = .inr j ∧ ItemAt meaning a j k t ∧ k ≤ n
  /-- No item of the left side is lost, and its forcings at most double. -/
  left : ∀ {a i k}, ItemAt meaning a i k s →
    ∃ m n, origin m = .inl i ∧ ItemAt meaning a m n joined ∧ n ≤ 2 * k
  /-- No item of the right side is lost, and it waits for one forcing more. -/
  right : ∀ {a j k}, ItemAt meaning a j k t →
    ∃ m n, origin m = .inr j ∧ ItemAt meaning a m n joined ∧ n ≤ 2 * k + 1
  /-- Items of one side come in the order they have there, so none of them comes twice. -/
  ordered : ∀ {a b m n k l}, ItemAt meaning a m k joined → ItemAt meaning b n l joined → m < n →
    InOrder (origin m) (origin n)

/-- The origins of a joined stream's items show that it is a fair merge. -/
theorem exists_fairMerge (meaning : σ → Stream σ α) (s t : Stream σ α) :
    ∃ origin, FairMerge meaning s t (s ++ t) origin := by
  -- Positions behind the end have no origin, and any value does for them.
  obtain ⟨origin, chosen⟩ := exists_function (r := Origin meaning s t)
    fun m o p first second => first.unique second
  refine ⟨origin, ⟨fun there => ?_, fun there => ?_, fun there => ?_, ?_⟩⟩
  · -- Every item comes from the side that its origin names.
    rcases there.of_append with ⟨i, k, found, left, bound⟩ | ⟨j, k, found, right, bound⟩
    · exact .inl ⟨i, k, chosen _ _ found, left, bound⟩
    · exact .inr ⟨j, k, chosen _ _ found, right, bound⟩
  · -- An item of the left side is met within twice its distance.
    obtain ⟨m, n, found, joined, bound⟩ := there.append_left t
    exact ⟨m, n, chosen _ _ found, joined, bound⟩
  · -- An item of the right side is met one forcing later than that.
    obtain ⟨m, n, found, joined, bound⟩ := there.append_right s
    exact ⟨m, n, chosen _ _ found, joined, bound⟩
  · intro a b m n k l first second before
    -- The chosen origins are the ones that the rules give, and those are in order.
    obtain ⟨o, firstOrigin⟩ := first.exists_origin
    obtain ⟨p, secondOrigin⟩ := second.exists_origin
    rw [chosen _ _ firstOrigin, chosen _ _ secondOrigin]
    exact firstOrigin.inOrder secondOrigin before

/--
Joining two streams is a fair merge of them, whether they end or not.

The joined stream ends exactly when both streams do, and then has as many suspensions as they have.
-/
theorem append_fairMerge (meaning : σ → Stream σ α) (s t : Stream σ α) :
    (∃ origin, FairMerge meaning s t (s ++ t) origin) ∧
    (Ends meaning (s ++ t) ↔ Ends meaning s ∧ Ends meaning t) ∧
    ∀ n, EndsAfter meaning n (s ++ t) ↔
      ∃ k l, EndsAfter meaning k s ∧ EndsAfter meaning l t ∧ n = k + l := by
  -- Whether the streams end follows from where they end.
  refine ⟨exists_fairMerge meaning s t, ⟨fun ends => ?_, fun ends => ?_⟩,
    fun n => endsAfter_append_iff⟩
  · obtain ⟨n, ends⟩ := ends
    obtain ⟨k, l, left, right, _⟩ := endsAfter_append_iff.1 ends
    exact ⟨⟨k, left⟩, ⟨l, right⟩⟩
  · obtain ⟨⟨k, left⟩, ⟨l, right⟩⟩ := ends
    exact ⟨k + l, endsAfter_append_iff.2 ⟨k, l, left, right, rfl⟩⟩

end Relational.Stream
