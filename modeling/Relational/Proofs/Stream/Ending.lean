import Relational.Proofs.Stream.Collect
import Relational.Proofs.Stream.Position

/-! Endings: a stream without jobs comes to an end, and what comes to an end is collected whole. -/

namespace Relational.Stream

variable {σ α : Type} {items : List α} {n fuel : Nat}

/-- A stream without jobs ends, with its members in some order. -/
theorem exists_endsWith_members (s : Stream Empty α) :
    ∃ items, EndsWith noJobs items s.forcings s ∧ items.Perm s.members := by
  -- Realized items cost nothing, and behind a suspension there is one suspension less.
  induction count : s.forcings using Nat.strongRecOn generalizing s with
  | ind total fewer =>
    induction s with
    | empty =>
      subst count
      exact ⟨[], .empty, .nil⟩
    -- The item in front is the first one of the members as well.
    | mature a rest ih =>
      obtain ⟨items, ends, same⟩ := ih count
      exact ⟨a :: items, .item ends, same.cons a⟩
    | immature work =>
      -- What the work resumes to has its members in another order, perhaps.
      subst count
      obtain ⟨items, ends, same⟩ :=
        fewer work.forcings (Nat.lt_succ_self _) _ (Suspension.forcings_resume work)
      exact ⟨items, .forced ends, same.trans (Suspension.members_resume work)⟩

/-- A stream without jobs ends in the same way among streams that have some. -/
theorem EndsWith.lift {s : Stream Empty α} (meaning : σ → Stream σ α)
    (ends : EndsWith noJobs items n s) : EndsWith meaning items n s.lift := by
  -- Lifting keeps every node, and a lifted suspension resumes to the lifted resumption.
  induction ends with
  | empty => exact .empty
  | item _ ih => exact .item ih
  | forced _ ih =>
    refine .forced ?_
    rw [Suspension.resume_lift]
    exact ih

/-- With fuel for all its suspensions, a stream that ends is collected to the end. -/
theorem EndsWith.collect {meaning : σ → Stream σ α} {s : Stream σ α}
    (ends : EndsWith meaning items n s) (enough : n ≤ fuel) :
    s.collect meaning fuel .all = some items := by
  -- Whatever was found before stays in front.
  have general : ∀ found : List α,
      collectOnto meaning found fuel .all s = some (found.reverse ++ items) := by
    induction ends generalizing fuel with
    | empty =>
      intro found
      unfold collectOnto
      rfl
    | item _ ih =>
      intro found
      rw [collectOnto_mature, ih enough]
      simp
    | forced _ ih =>
      -- The fuel covers at least this suspension.
      intro found
      obtain ⟨left, rfl⟩ := Nat.exists_eq_add_of_le' (Nat.lt_of_lt_of_le (Nat.succ_pos _) enough)
      rw [collectOnto_immature]
      exact ih (Nat.le_of_succ_le_succ enough) found
  exact general []

end Relational.Stream
