import Mathlib.Data.List.Forall2
import Relational.Proofs.Stream.Reading

/-! Streams in lockstep: items and suspensions at the same places, with related items. -/

namespace Relational

/-- What a reading has shown, with every item replaced by its image. -/
def Exploration.map {α β : Type} (f : α → β) (seen : Exploration α) : Exploration β :=
  ⟨seen.steps, seen.items.map f⟩

namespace Stream

variable {σ τ α β : Type}

/--
Two streams show the same kinds of nodes in the same order, as far as some number of forcings goes.

Items at the same position are related.
-/
inductive Lockstep (meaning : σ → Stream σ α) (other : τ → Stream τ β) (R : α → β → Prop) :
    Nat → Stream σ α → Stream τ β → Prop where
  | empty {n : Nat} : Lockstep meaning other R n .empty .empty
  | mature {n : Nat} {a : α} {b : β} {s : Stream σ α} {t : Stream τ β} (related : R a b)
      (later : Lockstep meaning other R n s t) :
      Lockstep meaning other R n (.mature a s) (.mature b t)
  /-- Without forcings left nothing is asked of what is suspended. -/
  | unforced {work : Suspension σ α} {work' : Suspension τ β} :
      Lockstep meaning other R 0 (.immature work) (.immature work')
  | forced {n : Nat} {work : Suspension σ α} {work' : Suspension τ β}
      (later : Lockstep meaning other R n (work.resume meaning) (work'.resume other)) :
      Lockstep meaning other R (n + 1) (.immature work) (.immature work')

variable {meaning : σ → Stream σ α} {other : τ → Stream τ β} {R S : α → β → Prop}
variable {n m : Nat} {s s₂ : Stream σ α} {t t₂ : Stream τ β}

/-- Streams of one item each are in lockstep if the items are related. -/
theorem Lockstep.singleton {a : α} {b : β} (related : R a b) :
    Lockstep meaning other R n (.singleton a) (.singleton b) :=
  .mature related .empty

/-- Fewer forcings show no difference either. -/
theorem Lockstep.mono (steps : Lockstep meaning other R n s t) (fewer : m ≤ n) :
    Lockstep meaning other R m s t := by
  -- With the forcings used up, two suspensions are in lockstep whatever is behind them.
  induction steps generalizing m with
  | empty => exact .empty
  | mature related _ ih => exact .mature related (ih fewer)
  | unforced =>
    obtain rfl : m = 0 := by omega
    exact .unforced
  | forced _ ih =>
    cases m with
    | zero => exact .unforced
    | succ m => exact .forced (ih (by omega))

/-- Related items may be seen to be related in another way, as long as they are reached. -/
theorem Lockstep.imp (steps : Lockstep meaning other R n s t)
    (implies : ∀ a b, Reached meaning a s → R a b → S a b) :
    Lockstep meaning other S n s t := by
  -- What is reached behind a node is reached from the node as well.
  induction steps with
  | empty => exact .empty
  | mature related _ ih =>
    refine .mature (implies _ _ ⟨0, .head⟩ related) (ih fun a b reached => ?_)
    obtain ⟨n, reached⟩ := reached
    exact implies a b ⟨n, .tail reached⟩
  | unforced => exact .unforced
  | forced _ ih =>
    refine .forced (ih fun a b reached => ?_)
    obtain ⟨n, reached⟩ := reached
    exact implies a b ⟨n + 1, .forced reached⟩

/-- Streams in lockstep can be joined with others in lockstep. -/
theorem Lockstep.append (first : Lockstep meaning other R n s t)
    (second : Lockstep meaning other R n s₂ t₂) :
    Lockstep meaning other R n (s ++ s₂) (t ++ t₂) := by
  -- Both joined streams swap their sides at the same suspensions.
  induction n using Nat.strongRecOn generalizing s t s₂ t₂ with
  | ind n swapped =>
    induction first with
    | empty => simpa using second
    | mature related _ ih =>
      rw [mature_append, mature_append]
      exact .mature related (ih swapped second)
    | @unforced work work' =>
      -- Both wholes are suspended, and nothing is asked of what they resume to.
      obtain ⟨joined, suspended, _⟩ := immature_append meaning work s₂
      obtain ⟨joined', suspended', _⟩ := immature_append other work' t₂
      rw [suspended, suspended']
      exact .unforced
    | @forced n work work' later _ =>
      -- Both turns go to the right sides, with one forcing less to go.
      obtain ⟨joined, suspended, resumed⟩ := immature_append meaning work s₂
      obtain ⟨joined', suspended', resumed'⟩ := immature_append other work' t₂
      rw [suspended, suspended']
      refine .forced ?_
      rw [resumed, resumed']
      exact swapped n (Nat.lt_succ_self n) (second.mono (Nat.le_succ n)) later

/-- Streams in lockstep can be mapped by functions that take related items to streams in lockstep. -/
theorem Lockstep.flatMap {g : α → Stream σ α} {h : β → Stream τ β}
    (steps : Lockstep meaning other R n s t)
    (images : ∀ a b, R a b → Lockstep meaning other S n (g a) (h b)) :
    Lockstep meaning other S n (s.flatMap g) (t.flatMap h) := by
  -- Images are joined in front of the mapped rests, on both sides in the same way.
  induction steps with
  | empty => exact .empty
  | mature related _ ih => exact (images _ _ related).append (ih images)
  | unforced => exact .unforced
  | forced _ ih =>
    exact .forced (ih fun a b related => (images a b related).mono (Nat.le_succ _))

/-- Reading streams in lockstep shows the same steps, and related items. -/
theorem Lockstep.explore (steps : Lockstep meaning other R n s t) (wanted : Limit) :
    (s.explore meaning n wanted).steps = (t.explore other n wanted).steps ∧
      List.Forall₂ R (s.explore meaning n wanted).items (t.explore other n wanted).items := by
  -- Each node is one step of both readings, unless both have had enough by then.
  induction steps generalizing wanted with
  | empty =>
    -- A limit of nothing stops both readings before they look.
    by_cases hungry : wanted = .take 0
    · simp [hungry, explore_full]
    · simp [explore_empty hungry]
  | mature related _ ih =>
    by_cases hungry : wanted = .take 0
    · simp [hungry, explore_full]
    · simp [explore_mature hungry, related, ih wanted.less]
  | unforced => simp [explore_unforced]
  | forced _ ih =>
    by_cases hungry : wanted = .take 0
    · simp [hungry, explore_full]
    · simp [explore_forced hungry, ih wanted]

/-- Streams in lockstep, where the items of one are images of those of the other, show just that. -/
theorem Lockstep.explore_eq_map {f : α → β}
    (steps : Lockstep meaning other (fun a b => f a = b) n s t) (wanted : Limit) :
    t.explore other n wanted = (s.explore meaning n wanted).map f := by
  -- Related items are images, so the lists of them differ by the mapping alone.
  obtain ⟨same, images⟩ := steps.explore wanted
  rw [← List.forall₂_map_left_iff, List.forall₂_eq_eq_eq] at images
  rw [Exploration.map, same, images]

section WithoutJobs

variable {found : Stream Empty α} {found' : Stream Empty β}

/-- Streams without jobs stay in lockstep among streams that have some. -/
theorem Lockstep.lift (meaning : σ → Stream σ α) (other : τ → Stream τ β)
    (steps : Lockstep noJobs noJobs R n found found') :
    Lockstep meaning other R n found.lift found'.lift := by
  -- Lifting keeps every node on both sides.
  induction steps with
  | empty => exact .empty
  | mature related _ ih => exact .mature related ih
  | unforced => exact .unforced
  | forced _ ih =>
    refine .forced ?_
    rw [Suspension.resume_lift, Suspension.resume_lift]
    exact ih

/-- Of two streams in lockstep up to the end of one, both have a first item or neither has. -/
theorem Lockstep.first?_eq_none_iff (steps : Lockstep noJobs noJobs R n found found')
    (enough : found.forcings ≤ n) : found.first? = none ↔ found'.first? = none := by
  -- Every forcing that finds the first item of one is a forcing of the other as well.
  induction steps with
  | empty => simp [first?]
  | mature _ _ _ => simp [first?]
  | unforced => simp [forcings] at enough
  | forced _ ih =>
    rw [first?, first?]
    refine ih ?_
    rw [Suspension.forcings_resume]
    exact Nat.le_of_succ_le_succ enough

end WithoutJobs

end Stream

/-- Mapping a lazy list to streams in lockstep gives streams in lockstep. -/
theorem LazyList.lockstep_flatMap {σ τ α β γ : Type} {meaning : σ → Stream σ α}
    {other : τ → Stream τ β} {R : α → β → Prop} {n : Nat} {g : γ → Stream σ α}
    {h : γ → Stream τ β} (items : LazyList γ)
    (images : ∀ c ∈ items.toList, Stream.Lockstep meaning other R n (g c) (h c)) :
    Stream.Lockstep meaning other R n (items.flatMap g) (items.flatMap h) := by
  induction items generalizing n with
  | nil => exact .empty
  | cons c rest ih =>
    have first := images c List.mem_cons_self
    exact first.append (ih fun d member => images d (List.mem_cons_of_mem c member))
  | delay rest ih =>
    -- Both delays stand at the same place, and are run by the same forcing.
    cases n with
    | zero => exact .unforced
    | succ n => exact .forced (ih () fun c member => (images c member).mono (Nat.le_succ n))

end Relational
