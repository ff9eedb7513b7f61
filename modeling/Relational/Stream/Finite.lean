import Relational.Stream.Explore

/-! Streams without jobs end: every forcing leaves fewer suspensions, so their first item can be found. -/

namespace Relational

variable {α : Type}

/-- The sum of some counts. -/
def total : List Nat → Nat
  | [] => 0
  | count :: rest => count + total rest

/-- Counts in another order have the same total. -/
theorem total_eq_of_perm {counts others : List Nat} (same : counts.Perm others) :
    total counts = total others := by
  -- Two neighbours can change places because addition does not mind.
  induction same with
  | nil => rfl
  | cons count _ ih => simp only [total, ih]
  | swap first second rest => simp only [total]; omega
  | trans _ _ first second => exact first.trans second

mutual

/-- The items of a stream without jobs, one part after the other rather than in turns. -/
def Stream.members : Stream Empty α → List α
  | .empty => []
  | .mature a rest => a :: rest.members
  | .immature work => work.members

/-- The items that suspended work without jobs will give. -/
def Suspension.members : Suspension Empty α → List α
  | .source job => nomatch job
  | .delay rest => (rest ()).members
  | .merge next work => next.members ++ work.members
  | .bind work g => work.members.flatMap fun a => (g a).members

end

mutual

/-- How many suspensions are met on the way to the end of a stream without jobs. -/
def Stream.forcings : Stream Empty α → Nat
  | .empty => 0
  | .mature _ rest => rest.forcings
  | .immature work => work.forcings + 1

/-- How many suspensions are met behind suspended work without jobs. -/
def Suspension.forcings : Suspension Empty α → Nat
  | .source job => nomatch job
  | .delay rest => (rest ()).forcings
  | .merge next work => next.forcings + work.forcings
  | .bind work g => work.forcings + total (work.members.map fun a => (g a).forcings)

end

namespace Stream

/-- Streams without jobs need no unfolding. -/
def noJobs : Empty → Stream Empty α :=
  nofun

/-- Two streams in turns have the items of both, each as often as before. -/
theorem members_append (s t : Stream Empty α) :
    (s ++ t).members.Perm (s.members ++ t.members) := by
  induction s with
  | empty => simp [members]
  | mature head rest ih => simpa [members] using ih
  | immature work =>
    -- A suspended left side is put behind the right side.
    cases t with
    | empty => simp [members]
    | mature b other => exact List.perm_append_comm
    | immature other => exact List.perm_append_comm

/-- Two streams in turns have the suspensions of both. -/
theorem forcings_append (s t : Stream Empty α) :
    (s ++ t).forcings = s.forcings + t.forcings := by
  -- The realized part in front costs nothing, so only the suspended left side needs an argument.
  induction s with
  | empty => simp [forcings]
  | mature head rest ih => simp [forcings, ih]
  | immature work =>
    -- One suspension stands for the whole, and both parts are met behind it.
    cases t with
    | empty => simp [forcings]
    | mature b other =>
      show (Stream.mature b other).forcings + work.forcings + 1 = work.forcings + 1 + _
      omega
    | immature other =>
      show (Stream.immature other).forcings + work.forcings + 1 = work.forcings + 1 + _
      omega

/-- Replacing every item by a stream gives the items of all those streams. -/
theorem members_flatMap (g : α → Stream Empty α) (s : Stream Empty α) :
    (s.flatMap g).members.Perm (s.members.flatMap fun a => (g a).members) := by
  -- The image of the first item is joined with those of the rest, in some order.
  induction s with
  | empty => exact .nil
  | mature head rest ih => exact (members_append _ _).trans (ih.append_left _)
  | immature work => exact .refl _

/-- Replacing every item by a stream adds the suspensions of all those streams. -/
theorem forcings_flatMap (g : α → Stream Empty α) (s : Stream Empty α) :
    (s.flatMap g).forcings = s.forcings + total (s.members.map fun a => (g a).forcings) := by
  -- A realized item adds the suspensions of its image, and a suspension those of all items behind it.
  induction s with
  | empty => rfl
  | mature head rest ih =>
    simp only [flatMap, forcings_append, ih, forcings, members, List.map_cons, total]
    omega
  | immature work =>
    show work.forcings + _ + 1 = work.forcings + 1 + total (work.members.map _)
    omega

end Stream

namespace Suspension

/-- Resumed work has the items it was said to give. -/
theorem members_resume : ∀ work : Suspension Empty α,
    (work.resume Stream.noJobs).members.Perm work.members
  | .source job => nomatch job
  | .delay _ => .refl _
  | .merge _ work =>
    (Stream.members_append _ _).trans ((members_resume work).append_left _)
  | .bind work _ =>
    (Stream.members_flatMap _ _).trans ((members_resume work).flatMap_right _)

/-- Resumed work meets exactly the suspensions that were behind it. -/
theorem forcings_resume : ∀ work : Suspension Empty α,
    (work.resume Stream.noJobs).forcings = work.forcings
  | .source job => nomatch job
  | .delay _ => rfl
  | .merge next work => by
    rw [resume, Stream.forcings_append, forcings_resume work, forcings]
  | .bind work g => by
    -- The items are the same up to order, and a total does not depend on the order.
    have totals := total_eq_of_perm ((members_resume work).map fun a => (g a).forcings)
    rw [resume, Stream.forcings_flatMap, forcings_resume work, totals, forcings]

end Suspension

namespace Stream

/-- The first item of a stream without jobs, however many suspensions are in front of it. -/
def first? (s : Stream Empty α) : Option α :=
  match s with
  | .empty => none
  | .mature a _ => some a
  | .immature work => (work.resume noJobs).first?
termination_by s.forcings
decreasing_by rw [Suspension.forcings_resume]; exact Nat.lt_succ_self _

/-- A stream without jobs has no first item exactly when it has no items at all. -/
theorem first?_eq_none_iff (s : Stream Empty α) : s.first? = none ↔ s.members = [] := by
  fun_induction first? s with
  | case1 => simp [members]
  | case2 a rest => simp [members]
  | case3 work ih =>
    -- Resuming keeps the items up to order, so it keeps whether there are any.
    rw [ih]
    exact ⟨fun none => (none ▸ Suspension.members_resume work).nil_eq.symm,
      fun none => List.perm_nil.1 (none ▸ Suspension.members_resume work)⟩

end Stream

mutual

/-- A stream without jobs, among streams that may have some. -/
def Stream.lift {σ : Type} : Stream Empty α → Stream σ α
  | .empty => .empty
  | .mature a rest => .mature a rest.lift
  | .immature work => .immature work.lift

/-- Work without jobs, among work that may have some. -/
def Suspension.lift {σ : Type} : Suspension Empty α → Suspension σ α
  | .source job => nomatch job
  | .delay rest => .delay fun _ => (rest ()).lift
  | .merge next work => .merge next.lift work.lift
  | .bind work g => .bind work.lift fun a => (g a).lift

end

end Relational
