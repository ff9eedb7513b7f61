import Relational.Proofs.Stream.Position

/-! Waiting: streams whose items come late, and what comes first when they are joined with others. -/

namespace Relational.Stream

variable {σ α : Type}

/-- A stream has no item before some number of suspensions has been forced. -/
inductive Waits (meaning : σ → Stream σ α) : Nat → Stream σ α → Prop where
  | none {s : Stream σ α} : Waits meaning 0 s
  | empty {n : Nat} : Waits meaning n .empty
  | forced {n : Nat} {work : Suspension σ α} (later : Waits meaning n (work.resume meaning)) :
      Waits meaning (n + 1) (.immature work)

variable {meaning : σ → Stream σ α} {s t : Stream σ α} {n m : Nat} {a : α} {xs ys : List α}

/-- What waits waits for anything shorter as well. -/
theorem Waits.mono (waits : Waits meaning n s) (fewer : m ≤ n) : Waits meaning m s := by
  -- One may stop waiting at any suspension on the way.
  induction waits generalizing m with
  | none => exact Nat.le_zero.1 fewer ▸ .none
  | empty => exact .empty
  | forced _ ih =>
    cases m with
    | zero => exact .none
    | succ m => exact .forced (ih (Nat.le_of_succ_le_succ fewer))

/-- Two streams that wait still do when they take turns. -/
theorem Waits.append (left : Waits meaning n s) (right : Waits meaning n t) :
    Waits meaning n (s ++ t) := by
  -- Each forcing swaps the two sides, so both of them are arbitrary in the induction.
  induction n generalizing s t with
  | zero => exact .none
  | succ n ih =>
    cases left with
    | empty => rwa [empty_append]
    | forced later =>
      obtain ⟨joined, suspended, resumed⟩ := immature_append meaning _ t
      rw [suspended]
      refine .forced ?_
      rw [resumed]
      exact ih (right.mono (Nat.le_succ n)) later

/-- A mapped stream waits as long as the stream below it, and then as long as the images do. -/
theorem Waits.flatMap {g : α → Stream σ α} (waits : Waits meaning n s)
    (images : ∀ a, Waits meaning m (g a)) : Waits meaning (n + m) (s.flatMap g) := by
  -- The suspensions below come first, and those of the images take over behind them.
  induction waits with
  | empty => exact .empty
  | @forced n work _ ih =>
    rw [Nat.succ_add]
    exact .forced ih
  | none =>
    -- Nothing is known of the stream below, so only the images are counted.
    rw [Nat.zero_add]
    rename_i s
    induction m generalizing s with
    | zero => exact .none
    | succ m fewer =>
      -- Some item may be realized already, and then its image is what is waited for.
      induction s with
      | empty => exact .empty
      | mature a rest ih => exact (images a).append ih
      | immature work => exact .forced (fewer fun a => (images a).mono (Nat.le_succ m))

/-- A stream that ends without items can be waited for as long as one likes. -/
theorem EndsWith.waits (ends : EndsWith meaning [] m s) (n : Nat) : Waits meaning n s := by
  -- That there are no items has to be known at every step of the induction.
  generalize none : ([] : List α) = items at ends
  induction ends generalizing n with
  | empty => exact .empty
  | item => cases none
  | forced _ ih =>
    cases n with
    | zero => exact .none
    | succ n => exact .forced (ih n none)

/--
A stream that ends while another one waits comes first, with all of its items.

The two of them take turns, so each suspension on the left is matched by one on the right.
-/
theorem EndsWith.append_waiting (left : EndsWith meaning xs n s) (waits : Waits meaning n t)
    (right : EndsWith meaning ys m t) : EndsWith meaning (xs ++ ys) (n + m) (s ++ t) := by
  -- The invariant is that the right side waits at least as long as the left side takes.
  induction left generalizing t m with
  | empty => rwa [empty_append, Nat.zero_add]
  | item _ ih =>
    rw [mature_append]
    exact .item (ih waits right)
  | @forced xs n work later ih =>
    cases waits with
    -- The right side has ended without items, so the left side is the whole.
    | empty =>
      cases right
      rw [append_empty, List.append_nil]
      exact .forced later
    | @forced n other waits =>
      -- Forcing the left side brings the other one to the front, and forcing that one brings it back.
      cases right with
      | @forced _ m _ right =>
        obtain ⟨joined, suspended, resumed⟩ :=
          immature_append meaning work (.immature other)
        obtain ⟨again, swapped, resumedAgain⟩ :=
          immature_append meaning other (work.resume meaning)
        have ends := ih waits right
        rw [suspended, show n + 1 + (m + 1) = n + m + 1 + 1 by omega]
        refine .forced ?_
        rw [resumed, swapped]
        refine .forced ?_
        rwa [resumedAgain]

/-- Nothing comes out of a stream without items, whatever its items would be replaced by. -/
theorem EndsWith.flatMap_nil {g : α → Stream σ α} (ends : EndsWith meaning [] n s) :
    EndsWith meaning [] n (s.flatMap g) := by
  -- That there are no items has to be known at every step of the induction.
  generalize none : ([] : List α) = items at ends ⊢
  induction ends with
  | empty => exact .empty
  | item => cases none
  | forced _ ih => exact .forced (ih none)

/-- A stream with one item ends as the image of that item does. -/
theorem EndsWith.flatMap_one {g : α → Stream σ α} (ends : EndsWith meaning [a] n s)
    (image : EndsWith meaning ys m (g a)) : EndsWith meaning ys (n + m) (s.flatMap g) := by
  generalize one : [a] = items at ends
  -- All suspensions of the stream are in front of its item or behind it, and they add up.
  induction ends with
  | empty => cases one
  | item later =>
    obtain ⟨rfl, rfl⟩ := List.cons.inj one
    -- Behind the item nothing more comes, so its image is all there is.
    have rest := later.flatMap_nil (g := g)
    have joined := image.append_waiting (rest.waits m) rest
    rw [List.append_nil, Nat.add_comm] at joined
    exact joined
  | @forced _ n _ _ ih =>
    rw [Nat.succ_add]
    exact .forced (ih one)

end Relational.Stream
