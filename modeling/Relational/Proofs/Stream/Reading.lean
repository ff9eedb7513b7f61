import Relational.Proofs.Stream.Position

/-! Reading streams step by step: one equation for every node, and the positions that readings show. -/

namespace Relational.Stream

variable {σ α : Type} {meaning : σ → Stream σ α} {fuel : Nat} {wanted : Limit}

/-- Nothing is read when nothing is wanted. -/
theorem explore_full (meaning : σ → Stream σ α) (fuel : Nat) (s : Stream σ α) :
    explore meaning fuel (.take 0) s = ⟨[], []⟩ := by
  -- The limit is looked at before the stream is.
  unfold explore
  have nothing : s.gather (.take 0) = ([], .full) := by cases s <;> rfl
  rw [nothing]
  rfl

/-- The end is a step of its own. -/
theorem explore_empty (hungry : wanted ≠ .take 0) :
    explore meaning fuel wanted .empty = ⟨[.finish], []⟩ := by
  unfold explore
  -- Gathering stops at once, since the stream is at its end.
  have nothing : (.empty : Stream σ α).gather wanted = ([], .ended) := by
    rw [gather]
    exact hungry
  rw [nothing]
  rfl

/-- A realized item is read, and then what is behind it, with one item less to go. -/
theorem explore_mature (hungry : wanted ≠ .take 0) (a : α) (rest : Stream σ α) :
    explore meaning fuel wanted (.mature a rest) =
      ⟨.item :: (explore meaning fuel wanted.less rest).steps,
        a :: (explore meaning fuel wanted.less rest).items⟩ := by
  -- The realized run in front is one item longer, and everything behind it is the same.
  have longer : (Stream.mature a rest).gather wanted =
      (a :: (rest.gather wanted.less).1, (rest.gather wanted.less).2) := by
    rw [gather]
    exact hungry
  unfold explore
  rw [longer]
  -- Where gathering stops is the same with one item more in front.
  generalize rest.gather wanted.less = gathered
  obtain ⟨items, stop⟩ := gathered
  cases stop with
  | full => simp
  | ended => simp
  | suspended work wanted =>
    cases fuel with
    | zero => simp
    | succ fuel => simp

/-- Without fuel nothing behind a suspension is read. -/
theorem explore_unforced (meaning : σ → Stream σ α) (wanted : Limit) (work : Suspension σ α) :
    explore meaning 0 wanted (.immature work) = ⟨[], []⟩ := by
  -- It makes no difference whether anything was wanted.
  by_cases hungry : wanted = .take 0
  · rw [hungry, explore_full]
  · unfold explore
    have nothing : (Stream.immature work).gather wanted = ([], .suspended work wanted) := by
      rw [gather]
      exact hungry
    rw [nothing]
    rfl

/-- Forcing a suspension is a step, and costs fuel. -/
theorem explore_forced (hungry : wanted ≠ .take 0) (work : Suspension σ α) :
    explore meaning (fuel + 1) wanted (.immature work) =
      ⟨.force :: (explore meaning fuel wanted (work.resume meaning)).steps,
        (explore meaning fuel wanted (work.resume meaning)).items⟩ := by
  conv => lhs; unfold explore
  -- There is no realized item in front, so the forcing is the first step.
  have nothing : (Stream.immature work).gather wanted = ([], .suspended work wanted) := by
    rw [gather]
    exact hungry
  rw [nothing]
  rfl

end Relational.Stream
