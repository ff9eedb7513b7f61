import Relational.Proofs.Substitution.Acyclic

/-! Chains of variables: where following bindings from variable to variable ends. -/

namespace Relational.Substitution

open Relation (TransGen)

variable {s : Substitution} {x y : Var} {t r : Term Var}

/-- A variable is bound to another variable. -/
def Follows (s : Substitution) (x y : Var) : Prop :=
  s.get? x = some (.var y)

/--
Following bindings from variable to variable never leads back.

Cycles through pairs and expressions are not excluded, because following variables stops there.
-/
def Settled (s : Substitution) : Prop :=
  ∀ x, ¬ TransGen s.Follows x x

/-- A variable that is bound to another one depends on it. -/
theorem Follows.dependsOn (follows : s.Follows x y) : s.DependsOn x y :=
  -- The term that it is bound to is the other variable, which occurs there.
  ⟨.var y, follows, List.mem_singleton.2 rfl⟩

/-- Without any cycle there is none of variables alone. -/
theorem Acyclic.settled (acyclic : s.Acyclic) : s.Settled :=
  -- A cycle of variables alone is a cycle of dependencies, link by link.
  fun x cycle => acyclic x (TransGen.mono (fun _ _ => Follows.dependsOn (s := s)) _ _ cycle)

/-- Without bindings there is nothing to follow. -/
theorem settled_empty : empty.Settled :=
  acyclic_empty.settled

/--
A variable can be bound to any term but itself, if that term is not a bound variable.

A chain that uses the new binding ends with it, because nothing follows a free variable.
-/
theorem Settled.extend (settled : s.Settled) (apart : t ≠ .var x)
    (ends : ∀ y, t = .var y → s.get? y = none) : (s.extend x t).Settled := by
  -- A link of the extended substitution is an old one, or it is the new binding.
  have newLink : ∀ {a b : Var}, (s.extend x t).Follows a b → s.Follows a b ∨ (a = x ∧ t = .var b) := by
    intro a b follows
    rw [Follows, get?_extend] at follows
    split at follows
    · rename_i same
      exact .inr ⟨same, Option.some.inj follows⟩
    · exact .inl follows
  -- Where the new binding leads, no binding goes on.
  have stops : ∀ {b c : Var}, t = .var b → ¬ (s.extend x t).Follows b c := by
    intro b c last follows
    rcases newLink follows with old | ⟨same, _⟩
    · rw [Follows, ends b last] at old
      cases old
    · exact apart (same ▸ last)
  have paths : ∀ {a b : Var}, TransGen (s.extend x t).Follows a b →
      TransGen s.Follows a b ∨ t = .var b := by
    intro a b path
    induction path with
    | single follows =>
      rcases newLink follows with old | ⟨_, last⟩
      · exact .inl (.single old)
      · exact .inr last
    | tail _ follows earlier =>
      rcases newLink follows with old | ⟨_, last⟩
      · rcases earlier with before | last
        · exact .inl (before.tail old)
        · exact absurd follows (stops last)
      · exact .inr last
  -- A cycle of old links was there before; any other one would go on from where the new binding leads.
  intro z cycle
  rcases paths cycle with old | last
  · exact settled z old
  · obtain ⟨c, follows, _⟩ := TransGen.head'_iff.1 cycle
    exact stops last follows

/--
Following bindings from one term stops at another.

No number of lookups is given beforehand, so a walk that goes on for ever stops nowhere.
-/
inductive WalksTo (s : Substitution) : Term Var → Term Var → Prop where
  | known {t : Term Var} (known : ∀ x, t ≠ .var x) : WalksTo s t t
  | free {x : Var} (free : s.get? x = none) : WalksTo s (.var x) (.var x)
  /-- A bound variable is left for the term it is bound to. -/
  | hop {x : Var} {t r : Term Var} (bound : s.get? x = some t) (further : WalksTo s t r) :
      WalksTo s (.var x) r

/-- A walk does not stop at a bound variable. -/
theorem WalksTo.get?_eq_none (walks : s.WalksTo t (.var x)) : s.get? x = none := by
  -- The last variable looked up is the one where the walk stops.
  generalize stop : Term.var x = r at walks
  induction walks with
  | known known => exact absurd stop.symm (known x)
  | free free => exact Term.var.inj stop ▸ free
  | hop _ _ ih => exact ih stop

/-- A variable from which a walk stops does not lead back to itself. -/
theorem WalksTo.not_transGen (walks : s.WalksTo (.var x) r) : ¬ TransGen s.Follows x x := by
  generalize start : Term.var x = t at walks
  induction walks generalizing x with
  | known known => exact absurd start.symm (known x)
  | free free =>
    -- Nothing follows a free variable.
    intro cycle
    obtain ⟨y, follows, _⟩ := TransGen.head'_iff.1 cycle
    cases free.symm.trans (Term.var.inj start ▸ follows)
  | hop bound _ ih =>
    -- On a cycle the next variable would lead back to itself as well.
    intro cycle
    obtain ⟨y, follows, back⟩ := TransGen.head'_iff.1 cycle
    obtain rfl := Term.var.inj start
    have next := Option.some.inj (follows.symm.trans bound)
    exact ih next (.tail' back follows)

/-- Where a bounded number of lookups leads, following bindings stops. -/
theorem walksTo_of_walkWithin? {lookups : Nat} (walked : s.walkWithin? lookups t = some r) :
    s.WalksTo t r := by
  -- The only ways out of the loop are a term that is no variable and a variable without a binding.
  induction lookups generalizing t with
  | zero =>
    cases t with
    | var x => cases walked
    | _ => exact Option.some.inj walked ▸ .known nofun
  | succ lookups ih =>
    cases t with
    | var x =>
      rw [walkWithin?] at walked
      cases bound : s.get? x with
      | none =>
        rw [bound] at walked
        exact Option.some.inj walked ▸ .free bound
      | some u =>
        rw [bound] at walked
        exact .hop bound (ih walked)
    | _ => exact Option.some.inj walked ▸ .known nofun

/-- Lookups suffice where they outnumber a rank that falls along the chain. -/
theorem WalksTo.walkWithin?_eq_some {rank : Var → Nat}
    (falls : ∀ x y, s.Follows x y → ¬ TransGen s.Follows x x → rank y < rank x)
    (walks : s.WalksTo t r) {lookups : Nat} (enough : ∀ x, t = .var x → rank x < lookups) :
    s.walkWithin? lookups t = some r := by
  -- By induction on the walk, which has as many hops as the loop is to make lookups.
  induction walks generalizing lookups with
  | @known t known =>
    cases t with
    | var x => exact absurd rfl (known x)
    | _ => cases lookups <;> rfl
  | @free x free =>
    -- One lookup is left for the free variable, to see that it is free.
    obtain ⟨less, rfl⟩ := Nat.exists_eq_add_one_of_ne_zero (Nat.ne_zero_of_lt (enough x rfl))
    rw [walkWithin?, free]
  | @hop x t r bound further ih =>
    have limit := enough x rfl
    obtain ⟨less, rfl⟩ := Nat.exists_eq_add_one_of_ne_zero (Nat.ne_zero_of_lt limit)
    rw [walkWithin?, bound]
    -- The next variable has a lower rank, because the one before it is on no cycle.
    refine ih fun y same => ?_
    have lower := falls x y (by rw [Follows, bound, same]) (WalksTo.hop bound further).not_transGen
    omega

/-- Walking answers exactly where following bindings stops, and not at all where it never does. -/
theorem walk?_eq_some_iff (s : Substitution) : s.walk? t = some r ↔ s.WalksTo t r := by
  refine ⟨walksTo_of_walkWithin?, fun walks => ?_⟩
  -- A chain that ends has at most as many variables as there are bindings, and one more.
  obtain ⟨rank, falls, _, limit⟩ :=
    s.exists_rank s.Follows fun _ _ follows => follows.dependsOn.mem_domain
  refine walks.walkWithin?_eq_some falls fun x _ => ?_
  exact Nat.lt_succ_of_le ((limit x).trans s.size_le_weight)

/-- What walking answers is what a term is walked to. -/
theorem walk_eq_of_walk? (walked : s.walk? t = some r) : s.walk t = r := by
  -- The default that `walk` falls back to is not used.
  rw [walk, walked]
  rfl

/-- A variable that walking answers with is free. -/
theorem get?_eq_none_of_walk? (walked : s.walk? t = some (.var x)) : s.get? x = none :=
  -- The loop is left at a variable only after a lookup that finds nothing.
  (s.walk?_eq_some_iff.1 walked).get?_eq_none

/-- A term that is no variable is walked to itself. -/
theorem walk_of_known (s : Substitution) (known : ∀ x, t ≠ .var x) : s.walk t = t :=
  walk_eq_of_walk? (s.walk?_eq_some_iff.2 (.known known))

/-- A free variable is walked to itself. -/
theorem walk_of_free (free : s.get? x = none) : s.walk (.var x) = .var x :=
  walk_eq_of_walk? (s.walk?_eq_some_iff.2 (.free free))

/-- A walk that leads to a term other than a variable has ended there. -/
theorem walk?_of_known (known : ∀ x, s.walk t ≠ .var x) : s.walk? t = some (s.walk t) := by
  cases walked : s.walk? t with
  | some r => rw [walk_eq_of_walk? walked]
  | none =>
    -- Only a variable can be walked for ever, and it would be left as it is.
    have unmoved : s.walk t = t := by rw [walk, walked]; rfl
    rw [unmoved] at known
    cases walked.symm.trans (s.walk?_eq_some_iff.2 (.known known))

/-- A walk that leads to a free variable has ended there. -/
theorem walk?_of_free (walked : s.walk t = .var x) (free : s.get? x = none) :
    s.walk? t = some (s.walk t) := by
  cases answered : s.walk? t with
  | some r => rw [walk_eq_of_walk? answered]
  | none =>
    -- A free variable by itself is walked nowhere, so it is no walk for ever either.
    have unmoved : s.walk t = t := by rw [walk, answered]; rfl
    rw [← unmoved, walked] at answered
    cases answered.symm.trans (s.walk?_eq_some_iff.2 (.free free))

/-- What is passed on along chains, from their ends to their beginnings, holds of every term. -/
theorem Settled.chainInduction (settled : s.Settled) {motive : Term Var → Prop}
    (known : ∀ t, (∀ x, t ≠ .var x) → motive t) (free : ∀ x, s.get? x = none → motive (.var x))
    (bound : ∀ x t, s.get? x = some t → motive t → motive (.var x)) (t : Term Var) : motive t := by
  obtain ⟨rank, falls, _, _⟩ :=
    s.exists_rank s.Follows fun _ _ follows => follows.dependsOn.mem_domain
  -- The rank falls from each variable of a chain to the next one.
  have ofVar : ∀ (n : Nat) (x : Var), rank x = n → motive (.var x) := by
    intro n
    induction n using Nat.strongRecOn with
    | ind n lower =>
      intro x ranked
      cases found : s.get? x with
      | none => exact free x found
      | some u =>
        refine bound x u found ?_
        cases u with
        | var y => exact lower (rank y) (ranked ▸ falls x y found (settled x)) y rfl
        | _ => exact known _ nofun
  cases t with
  | var x => exact ofVar _ x rfl
  | _ => exact known _ nofun

/-- Where no variable leads back to itself, every walk stops. -/
theorem Settled.exists_walksTo (settled : s.Settled) (t : Term Var) : ∃ r, s.WalksTo t r := by
  -- The walk is put together from the end of the chain.
  induction t using settled.chainInduction with
  | known t known => exact ⟨t, .known known⟩
  | free x free => exact ⟨.var x, .free free⟩
  | bound x u bound ih =>
    obtain ⟨r, further⟩ := ih
    exact ⟨r, .hop bound further⟩

/-- Where no variable leads back to itself, walking always answers. -/
theorem Settled.walk?_eq_some (settled : s.Settled) (t : Term Var) : s.walk? t = some (s.walk t) := by
  obtain ⟨r, walks⟩ := settled.exists_walksTo t
  have answered := s.walk?_eq_some_iff.2 walks
  -- The walk exists because every chain ends, and the lookups suffice for it.
  rw [answered, walk_eq_of_walk? answered]

/-- Where no variable leads back to itself, a walk stops where `walk` says, and nowhere else. -/
theorem Settled.walksTo_iff (settled : s.Settled) : s.WalksTo t r ↔ r = s.walk t := by
  -- Walks are what the bounded loop answers, and without cycles it always answers.
  rw [← s.walk?_eq_some_iff, settled.walk?_eq_some, Option.some.injEq, eq_comm]

/-- A bound variable is walked to where its term is walked. -/
theorem Settled.walk_bound (settled : s.Settled) (bound : s.get? x = some t) :
    s.walk (.var x) = s.walk t :=
  -- A hop more at the beginning does not change where a walk stops.
  (settled.walksTo_iff.1 (.hop bound (settled.walksTo_iff.2 rfl))).symm

/-- Following variables never stops at a bound one. -/
theorem Settled.get?_eq_none (settled : s.Settled) (walked : s.walk t = .var x) :
    s.get? x = none :=
  get?_eq_none_of_walk? (walked ▸ settled.walk?_eq_some t)

/--
A new binding redirects the chains that ended in its variable, and leaves all others alone.

The term it is bound to has been walked already, so nothing more is to follow behind it.
-/
theorem Settled.walk_extend (settled : s.Settled) (free : s.get? x = none) (apart : r ≠ .var x)
    (walked : s.walk r = r) (t : Term Var) :
    (s.extend x r).walk t = if s.walk t = .var x then r else s.walk t := by
  -- The bound term may be a variable itself, but then one where a walk has stopped.
  have ends : ∀ y, r = .var y → s.get? y = none :=
    fun y same => settled.get?_eq_none (walked.trans same)
  have extended := settled.extend apart ends
  -- The new term is walked to itself, since it is no variable that is bound.
  have last : (s.extend x r).walk r = r := by
    cases r with
    | var y =>
      refine walk_of_free ?_
      have different : y ≠ x := fun same => apart (by rw [same])
      rw [get?_extend, if_neg different]
      exact ends y rfl
    | _ => exact walk_of_known _ nofun
  induction t using settled.chainInduction with
  | known t known =>
    -- A term that is no variable is not followed, before or after.
    rw [walk_of_known _ known, walk_of_known _ known, if_neg (known x)]
  | free y freeHere =>
    rw [walk_of_free freeHere]
    by_cases same : y = x
    · subst same
      -- The new binding is followed, and leads to the term.
      rw [if_pos rfl, extended.walk_bound (t := r) (by rw [get?_extend, if_pos rfl]), last]
    · rw [if_neg fun equal => same (Term.var.inj equal), walk_of_free]
      rw [get?_extend, if_neg same]
      exact freeHere
  | bound y u bound ih =>
    have kept : (s.extend x r).get? y = some u := extends_extend free r y u bound
    -- An old binding is still there, so both walks make the same hop.
    rw [extended.walk_bound kept, settled.walk_bound bound, ih]

end Relational.Substitution
