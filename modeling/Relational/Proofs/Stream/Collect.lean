import Relational.Stream.Finite

/-! Collecting streams to the end: a lazy list becomes a stream that ends with the same items. -/

namespace Relational.Stream

variable {σ α : Type}

/-- Nothing is looked at, and no forcing is spent, once no more items are wanted. -/
theorem collectOnto_full (meaning : σ → Stream σ α) (found : List α) (fuel : Nat)
    (s : Stream σ α) : collectOnto meaning found fuel (.take 0) s = some found.reverse := by
  -- The limit is looked at before the stream is.
  have nothing : s.gather (.take 0) = ([], .full) := by
    rw [gather]
  unfold collectOnto
  simp [nothing]

/-- A realized item joins those already found, as long as any are wanted. -/
theorem collectOnto_item (meaning : σ → Stream σ α) (found : List α) (fuel : Nat) {wanted : Limit}
    (more : wanted ≠ .take 0) (a : α) (rest : Stream σ α) :
    collectOnto meaning found fuel wanted (.mature a rest) =
      collectOnto meaning (a :: found) fuel wanted.less rest := by
  -- The realized run in front is one item longer, and everything behind it is the same.
  have longer : (Stream.mature a rest).gather wanted =
      (a :: (rest.gather wanted.less).1, (rest.gather wanted.less).2) := by
    rw [gather]
    exact more
  unfold collectOnto
  rw [longer]
  -- Why gathering stopped no longer matters, only that both sides stopped for the same reason.
  generalize rest.gather wanted.less = gathered
  obtain ⟨items, stop⟩ := gathered
  cases stop with
  | full => simp
  | ended => simp
  | suspended work wanted =>
    cases fuel with
    | zero => rfl
    | succ fuel => simp

/-- A suspension costs one forcing, as long as any items are wanted from behind it. -/
theorem collectOnto_forced (meaning : σ → Stream σ α) (found : List α) (fuel : Nat) {wanted : Limit}
    (more : wanted ≠ .take 0) (work : Suspension σ α) :
    collectOnto meaning found (fuel + 1) wanted (.immature work) =
      collectOnto meaning found fuel wanted (work.resume meaning) := by
  -- There is no realized item in front that would have to be kept.
  have nothing : (Stream.immature work).gather wanted = ([], .suspended work wanted) := by
    rw [gather]
    exact more
  conv => lhs; unfold collectOnto
  rw [nothing]
  rfl

/-- A realized item joins those already found when everything is wanted. -/
theorem collectOnto_mature (meaning : σ → Stream σ α) (found : List α) (fuel : Nat) (a : α)
    (rest : Stream σ α) :
    collectOnto meaning found fuel .all (.mature a rest) =
      collectOnto meaning (a :: found) fuel .all rest := by
  -- There is always more to come when everything is wanted.
  have more : Limit.all ≠ .take 0 := nofun
  exact collectOnto_item meaning found fuel more a rest

/-- A suspension costs one forcing, and collecting everything goes on behind it. -/
theorem collectOnto_immature (meaning : σ → Stream σ α) (found : List α) (fuel : Nat)
    (work : Suspension σ α) :
    collectOnto meaning found (fuel + 1) .all (.immature work) =
      collectOnto meaning found fuel .all (work.resume meaning) := by
  -- There is always more to come when everything is wanted.
  have more : Limit.all ≠ .take 0 := nofun
  exact collectOnto_forced meaning found fuel more work

/-- A lazy list read as a stream ends, and gives its items in order. -/
theorem collect_ofLazyList (meaning : σ → Stream σ α) (items : LazyList α) :
    ∃ fuel, (ofLazyList items).collect meaning fuel .all = some items.toList := by
  -- Whatever was found before stays in front of the items of the list.
  have general : ∀ items : LazyList α, ∃ fuel, ∀ found : List α,
      collectOnto meaning found fuel .all (ofLazyList items) =
        some (found.reverse ++ items.toList) := by
    intro items
    induction items with
    | nil => exact ⟨0, fun found => by unfold collectOnto; rfl⟩
    | cons a rest ih =>
      -- A realized item costs no fuel.
      obtain ⟨fuel, collected⟩ := ih
      refine ⟨fuel, fun found => ?_⟩
      rw [ofLazyList, collectOnto_mature, collected, LazyList.toList]
      simp
    | delay rest ih =>
      -- A delay costs one forcing, and what it gives is the rest of the list.
      obtain ⟨fuel, collected⟩ := ih ()
      refine ⟨fuel + 1, fun found => ?_⟩
      rw [ofLazyList, collectOnto_immature]
      exact collected found
  obtain ⟨fuel, collected⟩ := general items
  exact ⟨fuel, collected []⟩

end Relational.Stream
