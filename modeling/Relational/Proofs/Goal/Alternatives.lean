import Mathlib.Data.Multiset.Bind
import Mathlib.Data.Set.Basic
import Relational.Proofs.Goal.Naming
import Relational.Proofs.Goal.Plain

/-! Alternatives: what each way to meet a plain goal asks of values, whatever the order of its parts. -/

namespace Relational

/-- Ground values for everything that a goal may mention. -/
abbrev Reading := Name → Term Empty

namespace Reading

/-- A reading under a binder, which gives values to its names. -/
def extend (ρ : Reading) (names : List String) (values : List (Term Empty)) : Reading
  | .numbered x => ρ (.numbered x)
  | .bound name => (given names values name).getD (ρ (.bound name))

/-- The readings that can be completed to given ones by values for the names of a binder. -/
def under (names : List String) (readings : Set Reading) : Set Reading :=
  {ρ | ∃ values : List (Term Empty), values.length = names.length ∧
    (∀ value ∈ values, value.ExprFree) ∧ ρ.extend names values ∈ readings}

end Reading

section Meets

variable {α : Type}

/-- What it takes to meet one condition of a first kind and one of a second. -/
def meets (first second : Multiset (Set α)) : Multiset (Set α) :=
  first.bind fun A => second.map fun B => A ∩ B

/-- The order of two kinds of conditions makes no difference. -/
theorem meets_comm (first second : Multiset (Set α)) : meets first second = meets second first := by
  -- All pairs of conditions are met in, and it does not matter on which side one of them stands.
  rw [meets, meets, Multiset.bind_map_comm]
  simp only [Set.inter_comm]

/-- The order of two further kinds of conditions makes no difference. -/
theorem meets_right_comm (first second third : Multiset (Set α)) :
    meets (meets first second) third = meets (meets first third) second := by
  simp only [meets, Multiset.bind_assoc, Multiset.bind_map]
  -- The first condition is fixed, and the two others are exchanged.
  refine Multiset.bind_congr fun A _ => ?_
  rw [Multiset.bind_map_comm]
  simp only [Set.inter_right_comm A]

end Meets

namespace Goal

/-- The readings that make a plain goal true, for each way to make it true. -/
def alternatives : Goal → Multiset (Set Reading)
  | .eq u v => {{ρ | u.instantiate ρ = v.instantiate ρ}}
  | .succeed => {Set.univ}
  | .disj2 g h => g.alternatives + h.alternatives
  | .conj2 g h => meets g.alternatives h.alternatives
  | .snooze g => g.alternatives
  | .fresh names g => g.alternatives.map (Reading.under names)
  | _ => 0

/--
One goal comes of another by changing the order of goals, at any depth.

Conjunctions and disjunctions may be of two goals or of many.
-/
inductive Reorders : Goal → Goal → Prop where
  | refl (g : Goal) : Reorders g g
  | trans {g h k : Goal} (first : Reorders g h) (second : Reorders h k) : Reorders g k
  | swapConj (g h : Goal) : Reorders (.conj2 g h) (.conj2 h g)
  | swapDisj (g h : Goal) : Reorders (.disj2 g h) (.disj2 h g)
  | conj {goals others : List Goal} (permuted : goals.Perm others) :
      Reorders (.conj goals) (.conj others)
  | disj {goals others : List Goal} (permuted : goals.Perm others) :
      Reorders (.disj goals) (.disj others)
  | conj2 {g g' h h' : Goal} (first : Reorders g g') (second : Reorders h h') :
      Reorders (.conj2 g h) (.conj2 g' h')
  | disj2 {g g' h h' : Goal} (first : Reorders g g') (second : Reorders h h') :
      Reorders (.disj2 g h) (.disj2 g' h')
  | snooze {g g' : Goal} (within : Reorders g g') : Reorders (.snooze g) (.snooze g')
  | fresh {g g' : Goal} (names : List String) (within : Reorders g g') :
      Reorders (.fresh names g) (.fresh names g')

variable {g g' : Goal} {goals others : List Goal} {tracked : Nat}

/-- Goals joined one after the other can be reordered one by one. -/
theorem Reorders.foldl (join : Goal → Goal → Goal)
    (joined : ∀ {g g' h h'}, Reorders g g' → Reorders h h' → Reorders (join g h) (join g' h'))
    (members : List.Forall₂ Reorders goals others) {start start' : Goal}
    (first : Reorders start start') :
    Reorders (goals.foldl (fun earlier g => join earlier (.snooze g)) start)
      (others.foldl (fun earlier g => join earlier (.snooze g)) start') := by
  induction members generalizing start start' with
  -- By induction along the two lists; joining keeps a reordering of what has been joined.
  | nil => exact first
  | cons member _ ih => exact ih (joined first member.snooze)

/-- The goals of a conjunction can be reordered one by one. -/
theorem Reorders.conjMembers (members : List.Forall₂ Reorders goals others) :
    Reorders (.conj goals) (.conj others) :=
  -- Nothing is reordered where the fold starts.
  Reorders.foldl .conj2 .conj2 members (.refl _)

/-- The goals of a disjunction can be reordered one by one. -/
theorem Reorders.disjMembers (members : List.Forall₂ Reorders goals others) :
    Reorders (.disj goals) (.disj others) :=
  Reorders.foldl .disj2 .disj2 members (.refl _)

/-- Clauses can be put in another order, and so can the goals in each of them. -/
theorem Reorders.conde {clauses others permuted : List (List Goal)} (order : clauses.Perm others)
    (within : List.Forall₂ List.Perm others permuted) :
    Reorders (.conde clauses) (.conde permuted) := by
  -- First the order of the clauses, and then the goals inside each of them.
  refine .trans (.disj (order.map Goal.conj)) (.disjMembers ?_)
  rw [List.forall₂_map_left_iff, List.forall₂_map_right_iff]
  exact within.imp fun _ _ => .conj

/-- Goals in another order are as plain as before. -/
theorem Reorders.plain_iff (reorders : g.Reorders g') : g.Plain tracked ↔ g'.Plain tracked := by
  induction reorders with
  -- By induction on the reordering; being plain is asked of the same goals on both sides.
  | refl g => exact .rfl
  | trans _ _ first second => exact first.trans second
  | swapConj g h => exact and_comm
  | swapDisj g h => exact and_comm
  | conj permuted =>
    rw [plain_conj_iff, plain_conj_iff]
    simp only [permuted.mem_iff]
  | disj permuted =>
    rw [plain_disj_iff, plain_disj_iff]
    simp only [permuted.mem_iff]
  | conj2 _ _ first second => exact and_congr first second
  | disj2 _ _ first second => exact and_congr first second
  | snooze _ ih => exact ih
  | fresh _ _ ih => exact ih

/-- Goals joined one after the other have the same alternatives in any order. -/
theorem alternatives_foldl_eq_of_perm (join : Goal → Goal → Goal)
    {combine : Multiset (Set Reading) → Multiset (Set Reading) → Multiset (Set Reading)}
    (joined : ∀ g h, (join g h).alternatives = combine g.alternatives h.alternatives)
    (swaps : ∀ A B C, combine (combine A B) C = combine (combine A C) B)
    (permuted : goals.Perm others) (start : Goal) :
    (goals.foldl (fun earlier g => join earlier (.snooze g)) start).alternatives =
      (others.foldl (fun earlier g => join earlier (.snooze g)) start).alternatives := by
  have gathered : ∀ goals : List Goal,
      (goals.foldl (fun earlier g => join earlier (.snooze g)) start).alternatives =
        goals.foldl (fun earlier g => combine earlier g.alternatives) start.alternatives :=
    fun goals => (List.foldl_hom alternatives fun earlier g => (joined earlier (.snooze g)).symm).symm
  -- The alternatives of a fold are the fold of the alternatives, and its order may be changed.
  rw [gathered, gathered]
  refine permuted.foldl_eq' ?_ start.alternatives
  intro g _ h _ earlier
  exact swaps earlier g.alternatives h.alternatives

/-- The order of goals makes no difference to what they ask for. -/
theorem Reorders.alternatives_eq (reorders : g.Reorders g') : g.alternatives = g'.alternatives := by
  induction reorders with
  | refl g => rfl
  | trans _ _ first second => exact first.trans second
  -- Exchanging goals exchanges conditions, and intersections and sums do not mind.
  | swapConj g h => exact meets_comm g.alternatives h.alternatives
  | swapDisj g h => exact add_comm g.alternatives h.alternatives
  | conj permuted =>
    exact alternatives_foldl_eq_of_perm .conj2 (fun _ _ => rfl) meets_right_comm permuted .succeed
  | disj permuted =>
    exact alternatives_foldl_eq_of_perm .disj2 (fun _ _ => rfl) add_right_comm permuted .fail
  | conj2 _ _ first second => rw [alternatives, alternatives, first, second]
  | disj2 _ _ first second => rw [alternatives, alternatives, first, second]
  | snooze _ ih => exact ih
  | fresh names _ ih => rw [alternatives, alternatives, ih]

end Goal

end Relational
