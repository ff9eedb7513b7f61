import Relational.Proofs.Stream.Reach

/-! Positions in streams: which item stands where, behind how many forcings, and how a stream ends. -/

namespace Relational

/-- A relation with at most one value for each argument is the graph of some function, as far as it goes. -/
theorem exists_function {κ β : Type} [Nonempty β] {r : κ → β → Prop}
    (unique : ∀ x y z, r x y → r x z → y = z) : ∃ f : κ → β, ∀ x y, r x y → f x = y := by
  -- Where there is no value any will do.
  refine ⟨fun x => Classical.epsilon (r x), fun x y related => ?_⟩
  have value : r x (Classical.epsilon (r x)) := Classical.epsilon_spec ⟨y, related⟩
  exact unique x _ y value related

namespace Stream

variable {σ α : Type}

/-- An item stands at a position of a stream, and is met after exactly some number of forcings. -/
inductive ItemAt (meaning : σ → Stream σ α) (a : α) :
    (position forcings : Nat) → Stream σ α → Prop where
  | head {rest : Stream σ α} : ItemAt meaning a 0 0 (.mature a rest)
  /-- Behind a realized item every position is one further. -/
  | tail {i n : Nat} {b : α} {rest : Stream σ α} (later : ItemAt meaning a i n rest) :
      ItemAt meaning a (i + 1) n (.mature b rest)
  /-- Behind a suspension positions are the same, and one more forcing is needed. -/
  | forced {i n : Nat} {work : Suspension σ α}
      (later : ItemAt meaning a i n (work.resume meaning)) :
      ItemAt meaning a i (n + 1) (.immature work)

/-- A stream ends after some items, in this order, and after exactly some number of forcings. -/
inductive EndsWith (meaning : σ → Stream σ α) :
    (items : List α) → (forcings : Nat) → Stream σ α → Prop where
  | empty : EndsWith meaning [] 0 .empty
  | item {items : List α} {n : Nat} {a : α} {rest : Stream σ α}
      (later : EndsWith meaning items n rest) : EndsWith meaning (a :: items) n (.mature a rest)
  | forced {items : List α} {n : Nat} {work : Suspension σ α}
      (later : EndsWith meaning items n (work.resume meaning)) :
      EndsWith meaning items (n + 1) (.immature work)

/-- A stream ends behind exactly some number of suspensions, whatever its items are. -/
def EndsAfter (meaning : σ → Stream σ α) (n : Nat) (s : Stream σ α) : Prop :=
  ∃ items, EndsWith meaning items n s

/-- A stream comes to an end. -/
def Ends (meaning : σ → Stream σ α) (s : Stream σ α) : Prop :=
  ∃ n, EndsAfter meaning n s

variable {meaning : σ → Stream σ α} {a b : α} {i n m : Nat} {s t : Stream σ α} {items : List α}

/-- An item stands first, or its position is one more than behind the first one. -/
theorem itemAt_mature_iff :
    ItemAt meaning a i n (.mature b s) ↔
      (i = 0 ∧ n = 0 ∧ a = b) ∨ ∃ j, i = j + 1 ∧ ItemAt meaning a j n s := by
  -- The two rules for a realized stream are told apart by the position.
  refine ⟨fun there => ?_, fun there => ?_⟩
  · cases there with
    | head => exact .inl ⟨rfl, rfl, rfl⟩
    | tail later => exact .inr ⟨_, rfl, later⟩
  · rcases there with ⟨rfl, rfl, rfl⟩ | ⟨j, rfl, later⟩
    · exact .head
    · exact .tail later

/-- What is suspended has its items where its resumption has them, one forcing later. -/
theorem itemAt_immature_iff {work : Suspension σ α} :
    ItemAt meaning a i n (.immature work) ↔
      ∃ m, n = m + 1 ∧ ItemAt meaning a i m (work.resume meaning) := by
  -- There is only one rule for suspended work, and it adds the forcing.
  refine ⟨fun there => ?_, fun there => ?_⟩
  · cases there with
    | forced later => exact ⟨_, rfl, later⟩
  · obtain ⟨m, rfl, later⟩ := there
    exact .forced later

/-- What is reached within some forcings stands somewhere, behind at most that many. -/
theorem reachedWithin_iff_itemAt :
    ReachedWithin meaning a n s ↔ ∃ i k, ItemAt meaning a i k s ∧ k ≤ n := by
  refine ⟨fun reached => ?_, fun there => ?_⟩
  -- The way to the item is the same; only the position is counted along it, too.
  · induction reached with
    | head => exact ⟨0, 0, .head, Nat.zero_le _⟩
    | tail _ ih =>
      obtain ⟨i, k, there, bound⟩ := ih
      exact ⟨i + 1, k, .tail there, bound⟩
    | forced _ ih =>
      obtain ⟨i, k, there, bound⟩ := ih
      exact ⟨i, k + 1, .forced there, by omega⟩
  · obtain ⟨i, k, there, bound⟩ := there
    refine ReachedWithin.mono ?_ bound
    -- Forgetting the position leaves the same way to the item.
    induction there with
    | head => exact .head
    | tail _ ih => exact .tail (ih (by omega))
    | forced _ ih => exact .forced (ih (by omega))

/-- What is reached stands somewhere. -/
theorem reached_iff_itemAt : Reached meaning a s ↔ ∃ i n, ItemAt meaning a i n s := by
  -- A number of forcings is there on both sides, and it is only the position that comes in.
  refine ⟨fun reached => ?_, fun there => ?_⟩
  · obtain ⟨n, reached⟩ := reached
    obtain ⟨i, k, there, _⟩ := reachedWithin_iff_itemAt.1 reached
    exact ⟨i, k, there⟩
  · obtain ⟨i, n, there⟩ := there
    exact ⟨n, reachedWithin_iff_itemAt.2 ⟨i, n, there, Nat.le_refl n⟩⟩

/-- A stream ends in one way only. -/
theorem EndsWith.unique {others : List α} (ends : EndsWith meaning items n s)
    (again : EndsWith meaning others m s) : items = others ∧ n = m := by
  -- Each node of the stream leaves one rule for the other ending, too.
  induction ends generalizing others m with
  | empty => cases again; exact ⟨rfl, rfl⟩
  | item _ ih =>
    -- Both endings have the same first item.
    cases again with
    | item later =>
      obtain ⟨same, count⟩ := ih later
      exact ⟨by rw [same], count⟩
  | forced _ ih =>
    -- Both endings force the same suspension.
    cases again with
    | forced later =>
      obtain ⟨same, count⟩ := ih later
      exact ⟨same, by rw [count]⟩

/-- The items of a stream that ends are those that can be reached. -/
theorem EndsWith.mem_iff (ends : EndsWith meaning items n s) :
    a ∈ items ↔ Reached meaning a s := by
  induction ends with
  | empty => exact ⟨nofun, fun ⟨_, reached⟩ => nomatch reached⟩
  | item _ ih =>
    -- The first item is reached at once, and the others as before.
    simp only [List.mem_cons, ih, Reached, reachedWithin_mature_iff, exists_or, exists_const]
  | forced _ ih =>
    refine ih.trans ⟨fun reached => ?_, fun reached => ?_⟩
    · obtain ⟨n, later⟩ := reached
      exact ⟨n + 1, .forced later⟩
    · obtain ⟨_, reached⟩ := reached
      obtain ⟨n, _, later⟩ := reachedWithin_immature_iff.1 reached
      exact ⟨n, later⟩

end Stream

end Relational
