import Relational.Stream.Finite

/-! Reaching items through suspensions: turns are fair, so joined and mapped streams lose nothing. -/

namespace Relational

namespace Stream

variable {σ α : Type}

/-- An item is met on the way into a stream after at most some number of forcings. -/
inductive ReachedWithin (meaning : σ → Stream σ α) (a : α) : Nat → Stream σ α → Prop where
  /-- A realized item is there without any forcing. -/
  | head {n : Nat} {rest : Stream σ α} : ReachedWithin meaning a n (.mature a rest)
  /-- Going past a realized item takes no forcing either. -/
  | tail {n : Nat} {b : α} {rest : Stream σ α} (later : ReachedWithin meaning a n rest) :
      ReachedWithin meaning a n (.mature b rest)
  /-- Behind a suspension one forcing more is needed. -/
  | forced {n : Nat} {work : Suspension σ α}
      (later : ReachedWithin meaning a n (work.resume meaning)) :
      ReachedWithin meaning a (n + 1) (.immature work)

/-- An item is met after some finite number of forcings. -/
def Reached (meaning : σ → Stream σ α) (a : α) (s : Stream σ α) : Prop :=
  ∃ n, ReachedWithin meaning a n s

variable {meaning : σ → Stream σ α} {a b : α} {n m : Nat} {s t : Stream σ α}

/-- The empty stream has no item to reach. -/
@[simp] theorem not_reachedWithin_empty : ¬ ReachedWithin meaning a n .empty :=
  nofun

/-- An item of a realized stream is its first one or stands behind it. -/
@[simp] theorem reachedWithin_mature_iff :
    ReachedWithin meaning a n (.mature b s) ↔ a = b ∨ ReachedWithin meaning a n s := by
  -- One rule makes the first item, and one rule the others.
  constructor
  · intro reached
    cases reached with
    | head => exact .inl rfl
    | tail later => exact .inr later
  · intro reached
    rcases reached with rfl | later
    · exact .head
    · exact .tail later

/-- Whatever is suspended is reached through its resumption, and not without forcing. -/
@[simp] theorem reachedWithin_immature_iff {work : Suspension σ α} :
    ReachedWithin meaning a n (.immature work) ↔
      ∃ m, n = m + 1 ∧ ReachedWithin meaning a m (work.resume meaning) := by
  -- There is only one rule for suspended work.
  constructor
  · intro reached
    cases reached with
    | forced later => exact ⟨_, rfl, later⟩
  · intro reached
    obtain ⟨m, rfl, later⟩ := reached
    exact .forced later

/-- More forcings reach at least as much. -/
theorem ReachedWithin.mono (reached : ReachedWithin meaning a n s) (more : n ≤ m) :
    ReachedWithin meaning a m s := by
  -- Only suspensions use up forcings, and there are more of them than are needed.
  induction reached generalizing m with
  | head => exact .head
  | tail _ ih => exact .tail (ih more)
  | forced _ ih =>
    obtain ⟨m, rfl⟩ : ∃ k, m = k + 1 := ⟨m - 1, by omega⟩
    exact .forced (ih (by omega))

/-- A suspended left side makes the whole suspended, with the right side in front from then on. -/
theorem immature_append (meaning : σ → Stream σ α) (work : Suspension σ α) (t : Stream σ α) :
    ∃ joined, Stream.immature work ++ t = .immature joined ∧
      joined.resume meaning = t ++ work.resume meaning := by
  -- The shortcut for an empty right side keeps the left work, which resumes to the same stream.
  cases t with
  | empty => exact ⟨work, append_empty _, (empty_append _).symm⟩
  | mature b rest => exact ⟨_, rfl, rfl⟩
  | immature other => exact ⟨_, rfl, rfl⟩

/-- An item of two joined streams is an item of one of them, and was no further away there. -/
theorem ReachedWithin.of_append (reached : ReachedWithin meaning a n (s ++ t)) :
    ReachedWithin meaning a n s ∨ ReachedWithin meaning a n t := by
  -- Each forcing swaps the two sides, so both of them stay open while the count goes down.
  induction n using Nat.strongRecOn generalizing s t with
  | ind n swapped =>
    induction s with
    -- Nothing is on the left, so the item is on the right.
    | empty => exact .inr (by simpa using reached)
    | mature b rest ih =>
      -- Realized items of the left side come first, at no cost.
      rw [mature_append, reachedWithin_mature_iff] at reached
      rcases reached with rfl | later
      · exact .inl .head
      · exact (ih later).imp_left .tail
    | immature work =>
      -- Behind the suspension the right side leads, and the left side is its resumption.
      obtain ⟨joined, suspended, resumed⟩ := immature_append meaning work t
      rw [suspended, reachedWithin_immature_iff, resumed] at reached
      obtain ⟨m, rfl, later⟩ := reached
      rcases swapped m (Nat.lt_succ_self m) later with right | left
      · exact .inr (right.mono (Nat.le_succ m))
      · exact .inl (.forced left)

/-- What is reached with a stream in the lead is reached one forcing later behind another stream. -/
theorem ReachedWithin.behind (leads : ∀ rest, ReachedWithin meaning a n (t ++ rest))
    (s : Stream σ α) : ReachedWithin meaning a (n + 1) (s ++ t) := by
  -- Realized items in front take no forcing, so only the first suspension counts.
  induction s with
  | empty => simpa using (leads .empty).mono (Nat.le_succ n)
  | mature b rest ih => rw [mature_append]; exact .tail ih
  | immature work =>
    -- The first suspension of the other stream puts this one in the lead.
    obtain ⟨joined, suspended, resumed⟩ := immature_append meaning work t
    rw [suspended]
    exact .forced (resumed ▸ leads _)

/--
An item of the left stream is still reached when another stream takes turns with it.

Every forcing of the left side costs at most one of the right side, so the count at most doubles.
-/
theorem ReachedWithin.append_left (reached : ReachedWithin meaning a n s) (t : Stream σ α) :
    ReachedWithin meaning a (2 * n) (s ++ t) := by
  -- The other stream changes with every turn, so it is arbitrary in the induction.
  induction n using Nat.strongRecOn generalizing s t with
  | ind n earlier =>
    induction s with
    | empty => cases reached
    | mature b rest ih =>
      rw [mature_append, reachedWithin_mature_iff]
      exact (reachedWithin_mature_iff.1 reached).imp_right ih
    | immature work =>
      -- Once forced, the left side waits behind the right one with one forcing less to go.
      obtain ⟨joined, suspended, resumed⟩ := immature_append meaning work t
      obtain ⟨m, rfl, later⟩ := reachedWithin_immature_iff.1 reached
      have waiting := ReachedWithin.behind (earlier m (Nat.lt_succ_self m) later) t
      rw [suspended]
      exact .forced (resumed ▸ waiting)

/-- An item of the right stream is still reached, after one forcing more than on the left. -/
theorem ReachedWithin.append_right (reached : ReachedWithin meaning a n t) (s : Stream σ α) :
    ReachedWithin meaning a (2 * n + 1) (s ++ t) :=
  -- Whatever is on the left, it takes one turn to get to the right side.
  ReachedWithin.behind reached.append_left s

/-- Joining two streams loses no item and adds none. -/
theorem reached_append_iff :
    Reached meaning a (s ++ t) ↔ Reached meaning a s ∨ Reached meaning a t := by
  constructor
  · intro reached
    obtain ⟨n, reached⟩ := reached
    exact reached.of_append.imp (fun left => ⟨n, left⟩) fun right => ⟨n, right⟩
  · intro reached
    -- Which side is in front only changes how many forcings it takes.
    rcases reached with ⟨n, left⟩ | ⟨n, right⟩
    · exact ⟨2 * n, left.append_left t⟩
    · exact ⟨2 * n + 1, right.append_right s⟩

/-- An item of a mapped stream comes from an item no further away, and is no further away in its image. -/
theorem ReachedWithin.of_flatMap {g : α → Stream σ α}
    (reached : ReachedWithin meaning b n (s.flatMap g)) :
    ∃ a, ReachedWithin meaning a n s ∧ ReachedWithin meaning b n (g a) := by
  -- Forcing the mapped stream forces the one below it, with one forcing less to go.
  induction n using Nat.strongRecOn generalizing s with
  | ind n earlier =>
    induction s with
    | empty => cases reached
    | mature head rest ih =>
      -- The item comes from the image of the first item or from the mapped rest.
      rcases reached.of_append with image | later
      · exact ⟨head, .head, image⟩
      · obtain ⟨a, there, image⟩ := ih later
        exact ⟨a, .tail there, image⟩
    | immature work =>
      cases reached with
      | forced later =>
        obtain ⟨a, there, image⟩ := earlier _ (Nat.lt_succ_self _) later
        exact ⟨a, .forced there, image.mono (Nat.le_succ _)⟩

/-- An item of the image of a reached item is reached in the mapped stream. -/
theorem Reached.flatMap {g : α → Stream σ α} (there : Reached meaning a s)
    (image : Reached meaning b (g a)) : Reached meaning b (s.flatMap g) := by
  obtain ⟨n, there⟩ := there
  -- The images of other items are joined with the one in question, and delay it at most.
  induction there with
  | head => exact reached_append_iff.2 (.inl image)
  | tail _ ih => exact reached_append_iff.2 (.inr ih)
  | forced _ ih =>
    obtain ⟨m, later⟩ := ih
    exact ⟨m + 1, .forced later⟩

/-- Mapping items to streams reaches exactly the items of the images of reached items. -/
theorem reached_flatMap_iff {g : α → Stream σ α} :
    Reached meaning b (s.flatMap g) ↔ ∃ a, Reached meaning a s ∧ Reached meaning b (g a) := by
  -- Both directions are known with their numbers of forcings, which are forgotten here.
  constructor
  · intro reached
    obtain ⟨n, reached⟩ := reached
    obtain ⟨a, there, image⟩ := reached.of_flatMap
    exact ⟨a, ⟨n, there⟩, n, image⟩
  · intro reached
    obtain ⟨a, there, image⟩ := reached
    exact there.flatMap image

/-- Giving every item back leaves exactly the same items within the same forcings. -/
theorem reachedWithin_map_id_iff :
    ReachedWithin meaning a n (s.map fun x => x) ↔ ReachedWithin meaning a n s := by
  induction n using Nat.strongRecOn generalizing s with
  | ind n earlier =>
    induction s with
    | empty => exact .rfl
    | mature b rest ih => rw [map, reachedWithin_mature_iff, reachedWithin_mature_iff, ih]
    | immature work =>
      -- The resumed work is mapped in the same way, so one forcing less settles it.
      rw [map, reachedWithin_immature_iff, reachedWithin_immature_iff]
      refine exists_congr fun m => and_congr_right fun count => ?_
      rw [Suspension.resume, flatMap_singleton_comp]
      exact earlier m (by omega)

end Stream

section Finite

variable {σ α : Type}

namespace Stream

/-- Two joined streams without jobs can be put among others before or after they are joined. -/
theorem lift_append (s t : Stream Empty α) :
    ((s ++ t).lift : Stream σ α) = s.lift ++ t.lift := by
  -- Only a suspended left side asks what is on the right, and then joins the same two parts.
  induction s with
  | empty => simp [lift]
  | mature a rest ih => simp [lift, ih]
  | immature work =>
    cases t with
    | empty => simp [lift]
    | mature b rest => rfl
    | immature other => rfl

/-- A mapped stream without jobs can be put among others before or after it is mapped. -/
theorem lift_flatMap (g : α → Stream Empty α) (s : Stream Empty α) :
    ((s.flatMap g).lift : Stream σ α) = s.lift.flatMap fun a => (g a).lift := by
  -- The image of the first item is joined with the mapped rest, which lifting passes through.
  induction s with
  | empty => rfl
  | mature a rest ih => rw [flatMap, lift_append, ih, lift, flatMap]
  | immature work => rfl

end Stream

/-- Work without jobs resumes to the same stream among other work, whatever jobs mean there. -/
theorem Suspension.resume_lift (meaning : σ → Stream σ α) : ∀ work : Suspension Empty α,
    (work.lift : Suspension σ α).resume meaning = (work.resume Stream.noJobs).lift
  | .source job => nomatch job
  | .delay _ => rfl
  | .merge next work => by rw [lift, resume, resume_lift meaning work, resume, Stream.lift_append]
  | .bind work g => by rw [lift, resume, resume_lift meaning work, resume, Stream.lift_flatMap]

namespace Stream

/-- Putting a stream without jobs among others changes neither its items nor where they stand. -/
theorem reachedWithin_lift_iff {meaning : σ → Stream σ α} {a : α} {n : Nat}
    {s : Stream Empty α} :
    ReachedWithin meaning a n s.lift ↔ ReachedWithin noJobs a n s := by
  -- Both streams are suspended at the same places.
  induction n using Nat.strongRecOn generalizing s with
  | ind n earlier =>
    induction s with
    | empty => exact ⟨nofun, nofun⟩
    | mature b rest ih => rw [lift, reachedWithin_mature_iff, reachedWithin_mature_iff, ih]
    | immature work =>
      rw [lift, reachedWithin_immature_iff, reachedWithin_immature_iff]
      refine exists_congr fun m => and_congr_right fun count => ?_
      rw [Suspension.resume_lift]
      exact earlier m (by omega)

/-- What is reached in a stream without jobs is one of its items. -/
theorem ReachedWithin.mem_members {a : α} {n : Nat} {s : Stream Empty α}
    (reached : ReachedWithin noJobs a n s) : a ∈ s.members := by
  -- Resuming keeps the items, so each rule finds the item where it says.
  induction reached with
  | head => exact List.mem_cons_self
  | tail _ ih => exact List.mem_cons_of_mem _ ih
  | forced _ ih => exact (Suspension.members_resume _).mem_iff.1 ih

/-- Every item of a stream without jobs is reached before the stream ends. -/
theorem reachedWithin_forcings {a : α} (s : Stream Empty α) (member : a ∈ s.members) :
    ReachedWithin noJobs a s.forcings s := by
  -- Resuming leaves one suspension less, and the realized items in between take none.
  induction count : s.forcings using Nat.strongRecOn generalizing s with
  | ind n earlier =>
    subst count
    induction s with
    | empty => cases member
    | mature b rest ih =>
      rcases List.mem_cons.1 member with rfl | later
      · exact .head
      · exact .tail (ih later earlier)
    | immature work =>
      -- The item is behind the suspension, since resuming keeps all items.
      have there : a ∈ (work.resume noJobs).members :=
        (Suspension.members_resume work).mem_iff.2 member
      exact .forced (earlier work.forcings (Nat.lt_succ_self _) _ there
        (Suspension.forcings_resume work))

/-- The items of a stream without jobs are exactly those reached in it. -/
theorem reached_noJobs_iff {a : α} {s : Stream Empty α} :
    Reached noJobs a s ↔ a ∈ s.members := by
  constructor
  · intro reached
    obtain ⟨n, reached⟩ := reached
    exact reached.mem_members
  · intro member
    -- A stream without jobs has finitely many suspensions, and all of them are enough.
    exact ⟨s.forcings, reachedWithin_forcings s member⟩

end Stream

end Finite

end Relational
