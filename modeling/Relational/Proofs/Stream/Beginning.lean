import Relational.Proofs.Stream.Collect
import Relational.Proofs.Stream.Waiting

/-! Beginnings: the first items of a stream, whatever comes behind them and whether it ends or not. -/

namespace Relational.Stream

variable {σ α : Type}

/-- A stream has some items first, in this order, each of them behind finitely many suspensions. -/
inductive Begins (meaning : σ → Stream σ α) : List α → Stream σ α → Prop where
  /-- Nothing is asked of what comes behind the last of the items. -/
  | none {s : Stream σ α} : Begins meaning [] s
  | item {items : List α} {a : α} {rest : Stream σ α} (later : Begins meaning items rest) :
      Begins meaning (a :: items) (.mature a rest)
  | forced {items : List α} {work : Suspension σ α}
      (later : Begins meaning items (work.resume meaning)) : Begins meaning items (.immature work)

variable {meaning : σ → Stream σ α} {s t : Stream σ α} {n : Nat} {a : α} {xs ys items : List α}

/-- Forcing a suspension loses none of the items behind it. -/
theorem Begins.resume {work : Suspension σ α} (begins : Begins meaning items (.immature work)) :
    Begins meaning items (work.resume meaning) := by
  -- Nothing is said about the items of a stream that may be left suspended.
  cases begins with
  | none => exact .none
  | forced later => exact later

/-- Two suspended streams have both been forced after two turns, and stand as they stood before. -/
theorem Begins.immature_append {work other : Suspension σ α}
    (later : Begins meaning items (work.resume meaning ++ other.resume meaning)) :
    Begins meaning items (.immature work ++ .immature other) := by
  -- Forcing the left side brings the other one to the front, and forcing that one brings it back.
  obtain ⟨joined, suspended, resumed⟩ := Stream.immature_append meaning work (.immature other)
  obtain ⟨again, swapped, resumedAgain⟩ :=
    Stream.immature_append meaning other (work.resume meaning)
  rw [suspended]
  refine .forced ?_
  rw [resumed, swapped]
  refine .forced ?_
  rwa [resumedAgain]

/--
A stream that ends while another one waits comes first, and the other one goes on behind it.

The two of them take turns, so each suspension on the left is matched by one on the right.
-/
theorem EndsWith.append_begins (left : EndsWith meaning xs n s) (waits : Waits meaning n t)
    (right : Begins meaning ys t) : Begins meaning (xs ++ ys) (s ++ t) := by
  -- The invariant is that the right side waits as long as the left side takes.
  induction left generalizing t with
  | empty => rwa [empty_append]
  | item _ ih =>
    rw [mature_append]
    exact .item (ih waits right)
  | forced _ ih =>
    cases waits with
    | empty =>
      -- Nothing takes turns with the left side any more.
      have rest := ih .empty right
      rw [append_empty] at rest ⊢
      exact .forced rest
    | forced waits => exact .immature_append (ih waits right.resume)

/-- A stream without items delays another one, but hides none of its items. -/
theorem Begins.append_nil (begins : Begins meaning items s) (ends : EndsWith meaning [] n t) :
    Begins meaning items (s ++ t) := by
  induction begins generalizing t n with
  | none => exact .none
  | item _ ih =>
    rw [mature_append]
    exact .item (ih ends)
  | forced later ih =>
    -- The other stream is at its end, or it has a suspension of its own to force.
    cases ends with
    | empty =>
      rw [append_empty]
      exact .forced later
    | forced ends => exact .immature_append (ih ends)

/-- A stream with one item begins as the image of that item does. -/
theorem EndsWith.flatMap_begins {g : α → Stream σ α} (ends : EndsWith meaning [a] n s)
    (image : Begins meaning ys (g a)) : Begins meaning ys (s.flatMap g) := by
  generalize one : [a] = items at ends
  induction ends with
  | empty => cases one
  | item later =>
    obtain ⟨rfl, rfl⟩ := List.cons.inj one
    -- Behind the item nothing more comes, so its image is all there is.
    exact image.append_nil later.flatMap_nil
  | forced _ ih => exact .forced (ih one)

/-- With fuel enough, exactly the first items are collected if no more than those are wanted. -/
theorem Begins.collect (begins : Begins meaning items s) :
    ∃ least, ∀ fuel, least ≤ fuel →
      s.collect meaning fuel (.take items.length) = some items := by
  -- Whatever was found before stays in front.
  have general : ∃ least, ∀ fuel, least ≤ fuel → ∀ found : List α,
      collectOnto meaning found fuel (.take items.length) s = some (found.reverse ++ items) := by
    induction begins with
    | none => exact ⟨0, fun fuel _ found => by rw [List.length_nil, collectOnto_full, List.append_nil]⟩
    | item _ ih =>
      -- A wanted item costs no fuel.
      obtain ⟨least, collected⟩ := ih
      refine ⟨least, fun fuel enough found => ?_⟩
      rw [List.length_cons, collectOnto_item meaning found fuel (by simp), Limit.less,
        Nat.add_sub_cancel, collected fuel enough]
      simp
    | @forced items work _ ih =>
      -- A forcing is paid for in advance, whether it turns out to be needed or not.
      obtain ⟨least, collected⟩ := ih
      refine ⟨least + 1, fun fuel enough found => ?_⟩
      obtain ⟨fuel, rfl⟩ : ∃ less, fuel = less + 1 := ⟨fuel - 1, by omega⟩
      -- The suspension is forced only if there is an item behind it that is wanted.
      cases items with
      | nil => rw [List.length_nil, collectOnto_full, List.append_nil]
      | cons a items =>
        rw [collectOnto_forced meaning found fuel (by simp)]
        exact collected fuel (by omega) found
  obtain ⟨least, collected⟩ := general
  exact ⟨least, fun fuel enough => collected fuel enough []⟩

end Relational.Stream
