import Mathlib.Data.Finset.Card
import Mathlib.Logic.Relation
import Relational.Substitution

/-! Acyclic substitutions: no variable leads back to itself, so every chain of bindings is short. -/

namespace Relational

open Relation (TransGen ReflTransGen)

namespace Term

variable {ν : Type}

/-- The variables of a term, as often as they occur. -/
def vars : Term ν → List ν
  | .var x => [x]
  | .pair a d => a.vars ++ d.vars
  | .expr l _ r => l.vars ++ r.vars
  | _ => []

/-- No variable occurs in an atom. -/
theorem vars_of_isAtom {t : Term ν} (atom : t.isAtom = true) : t.vars = [] := by
  cases t with
  -- What could hold a variable is no atom.
  | var x => cases atom
  | pair a d => cases atom
  | expr l op r => cases atom
  | _ => rfl

/-- No variable occurs in a term that is none and has no parts. -/
theorem vars_of_leaf {t : Term ν} (known : ∀ x, t ≠ .var x) (notPair : ∀ a d, t ≠ .pair a d)
    (notExpr : ¬ t.isExpr = true) : t.vars = [] := by
  cases t with
  -- The three kinds of terms that could hold a variable are excluded one by one.
  | var x => exact absurd rfl (known x)
  | pair a d => exact absurd rfl (notPair a d)
  | expr l op r => exact absurd rfl notExpr
  | _ => rfl

/-- Resolving a term depends only on what its own variables stand for. -/
theorem resolve_congr {f g : Var → Term Var} {t : Term Var}
    (same : ∀ x ∈ t.vars, f x = g x) : t.resolve f = t.resolve g := by
  -- Only the variables of a part matter to that part.
  induction t with
  | var x => exact same x (List.mem_singleton.2 rfl)
  | pair a d first rest =>
    rw [resolve, resolve, first fun x member => same x (List.mem_append_left _ member),
      rest fun x member => same x (List.mem_append_right _ member)]
  | expr l op r left right =>
    rw [resolve, resolve, left fun x member => same x (List.mem_append_left _ member),
      right fun x member => same x (List.mem_append_right _ member)]
  | _ => rfl

end Term

namespace Substitution

variable {s s' : Substitution} {x y : Var} {t : Term Var}

/-- A variable is bound to a term in which another one occurs. -/
def DependsOn (s : Substitution) (x y : Var) : Prop :=
  ∃ t, s.get? x = some t ∧ y ∈ t.vars

/-- No variable leads back to itself through the terms that variables are bound to. -/
def Acyclic (s : Substitution) : Prop :=
  ∀ x, ¬ TransGen s.DependsOn x x

/-- A substitution keeps all bindings of another one, and may have more. -/
def Extends (s' s : Substitution) : Prop :=
  ∀ x t, s.get? x = some t → s'.get? x = some t

/-- Every substitution keeps its own bindings. -/
theorem Extends.refl (s : Substitution) : s.Extends s :=
  fun _ _ bound => bound

/-- Bindings that are kept twice are kept. -/
theorem Extends.trans {s'' : Substitution} (later : s''.Extends s') (earlier : s'.Extends s) :
    s''.Extends s :=
  fun x t bound => later x t (earlier x t bound)

/-- Binding a variable that was free keeps all other bindings. -/
theorem extends_extend (free : s.get? x = none) (t : Term Var) : (s.extend x t).Extends s := by
  -- The one variable whose binding is new had none that could be lost.
  intro y u bound
  rw [get?_extend]
  split
  · rename_i same
    rw [same, free] at bound
    cases bound
  · exact bound

/-- A rank that falls along every dependency rules cycles out. -/
theorem acyclic_of_rank (rank : Var → Nat) (falls : ∀ x y, s.DependsOn x y → rank y < rank x) :
    s.Acyclic := by
  intro x cycle
  -- Along a path the rank falls at every step, so it cannot come back to where it was.
  have lower : ∀ {a b : Var}, TransGen s.DependsOn a b → rank b < rank a := by
    intro a b path
    induction path with
    | single depends => exact falls _ _ depends
    | tail _ depends earlier => exact Nat.lt_trans (falls _ _ depends) earlier
  exact Nat.lt_irrefl _ (lower cycle)

/-- Without bindings there is nothing to lead anywhere. -/
theorem acyclic_empty : empty.Acyclic := by
  -- Any rank does, because nothing depends on anything.
  refine acyclic_of_rank (fun _ => 0) fun x y depends => ?_
  obtain ⟨t, bound, _⟩ := depends
  cases bound

/-- The bound variables. -/
def domain (s : Substitution) : Finset Var :=
  (s.entries.map Prod.fst).toFinset

/-- There are at most as many bound variables as bindings. -/
theorem card_domain_le (s : Substitution) : s.domain.card ≤ s.size := by
  -- Every bound variable comes from a binding of its own.
  refine (List.toFinset_card_le _).trans ?_
  rw [List.length_map, size]

/-- A variable that is found among bindings is one of theirs. -/
theorem mem_of_findBinding {bindings : List Binding} (found : findBinding x bindings = some t) :
    (x, t) ∈ bindings := by
  -- The search only ever stops with a term at a binding of the variable sought.
  induction bindings with
  | nil => cases found
  | cons first rest ih =>
    obtain ⟨y, u⟩ := first
    rw [findBinding] at found
    split at found
    · cases found
    · split at found
      · rename_i same
        obtain rfl := Option.some.inj found
        exact same ▸ List.mem_cons_self
      · exact List.mem_cons_of_mem _ (ih found)

/-- Bound variables are in the domain. -/
theorem mem_domain (bound : s.get? x = some t) : x ∈ s.domain :=
  -- The search for a binding only finds what is listed.
  List.mem_toFinset.2 (List.mem_map.2 ⟨(x, t), mem_of_findBinding bound, rfl⟩)

/--
Steps that start from bound variables have a rank, which falls along every step that leads to no way back.

It counts the bound variables that can still be met, which are no more than there are bindings.
-/
theorem exists_rank (s : Substitution) (step : Var → Var → Prop)
    (bound : ∀ x y, step x y → x ∈ s.domain) :
    ∃ rank : Var → Nat, (∀ x y, step x y → ¬ TransGen step x x → rank y < rank x) ∧
      (∀ x ∈ s.domain, 0 < rank x) ∧ ∀ x, rank x ≤ s.size := by
  classical
  -- The rank of a variable is how many bound variables can be met from it, itself included.
  refine ⟨fun x => (s.domain.filter fun z => ReflTransGen step x z).card, ?_, ?_, ?_⟩
  · intro x y steps noReturn
    -- Everything met from the second variable is met from the first, which also meets itself.
    refine Finset.card_lt_card (Finset.ssubset_iff_of_subset ?_ |>.2 ⟨x, ?_, ?_⟩)
    · intro z met
      obtain ⟨inDomain, path⟩ := Finset.mem_filter.1 met
      exact Finset.mem_filter.2 ⟨inDomain, path.head steps⟩
    · exact Finset.mem_filter.2 ⟨bound x y steps, .refl⟩
    · -- Meeting the first variable again would close a cycle.
      intro met
      exact noReturn (.head' steps (Finset.mem_filter.1 met).2)
  · intro x inDomain
    exact Finset.card_pos.2 ⟨x, Finset.mem_filter.2 ⟨inDomain, .refl⟩⟩
  · intro x
    exact (Finset.card_filter_le _ _).trans s.card_domain_le

/-- Dependencies start from bound variables. -/
theorem DependsOn.mem_domain (depends : s.DependsOn x y) : x ∈ s.domain := by
  obtain ⟨t, bound, _⟩ := depends
  -- A variable only depends on others through the term that it is bound to.
  exact Substitution.mem_domain bound

/-- Every way from a variable through dependencies comes to an end. -/
def Grounded (s : Substitution) (x : Var) : Prop :=
  Acc (fun y x => s.DependsOn x y) x

/-- Every way from a term through dependencies comes to an end, so that it can be resolved. -/
def Resolvable (s : Substitution) (t : Term Var) : Prop :=
  ∀ x ∈ t.vars, s.Grounded x

/-- A free variable has nowhere to lead. -/
theorem grounded_of_free (free : s.get? x = none) : s.Grounded x := by
  refine ⟨x, fun y depends => ?_⟩
  -- A dependency would be through a binding of the variable.
  obtain ⟨t, bound, _⟩ := depends
  rw [free] at bound
  cases bound

/-- What a grounded variable depends on is grounded. -/
theorem Grounded.of_dependsOn (grounded : s.Grounded x) (depends : s.DependsOn x y) :
    s.Grounded y :=
  -- Being grounded is accessibility along the dependencies, so it goes down every one of them.
  grounded.inv depends

/-- Whatever a grounded variable leads to is grounded. -/
theorem Grounded.of_transGen (grounded : s.Grounded x) (path : TransGen s.DependsOn x y) :
    s.Grounded y := by
  induction path with
  -- By induction on the path, one dependency at a time.
  | single depends => exact grounded.of_dependsOn depends
  | tail _ depends earlier => exact earlier.of_dependsOn depends

/-- A grounded variable does not lead back to itself. -/
theorem Grounded.not_transGen (grounded : s.Grounded x) : ¬ TransGen s.DependsOn x x := by
  -- On a way back the next variable would lead back to itself as well, and so on without end.
  induction grounded with
  | intro x _ ih =>
    intro cycle
    obtain ⟨y, depends, path⟩ := TransGen.head'_iff.1 cycle
    exact ih y depends (.tail' path depends)

/-- Without cycles every variable is grounded. -/
theorem Acyclic.grounded (acyclic : s.Acyclic) (x : Var) : s.Grounded x := by
  obtain ⟨rank, falls, _, _⟩ := s.exists_rank s.DependsOn fun _ _ => DependsOn.mem_domain
  -- The rank cannot fall for ever.
  have smaller : Subrelation (fun y x => s.DependsOn x y) (measure rank).rel :=
    fun depends => falls _ _ depends (acyclic _)
  exact smaller.accessible ((measure rank).wf.apply x)

/-- Without cycles every term can be resolved. -/
theorem Acyclic.resolvable (acyclic : s.Acyclic) (t : Term Var) : s.Resolvable t :=
  -- Every variable is grounded, in particular those that occur in the term.
  fun x _ => acyclic.grounded x

/-- A dependency of an extended substitution is the new binding's or was there before. -/
theorem dependsOn_extend {a b : Var} (depends : (s.extend x t).DependsOn a b) :
    (a = x ∧ b ∈ t.vars) ∨ s.DependsOn a b := by
  -- The term in question is the new one for the new variable, and an old one for any other.
  obtain ⟨u, bound, member⟩ := depends
  rw [get?_extend] at bound
  split at bound
  · rename_i same
    obtain rfl := Option.some.inj bound
    exact .inl ⟨same, member⟩
  · exact .inr ⟨u, bound, member⟩

/--
A new binding closes no cycle if nothing in its term leads to its variable.

A path through the new binding passes the variable, and goes on from a variable of the term.
-/
theorem Acyclic.extend (acyclic : s.Acyclic)
    (apart : ∀ y ∈ t.vars, ¬ ReflTransGen s.DependsOn y x) : (s.extend x t).Acyclic := by
  -- A path never takes the new binding twice, because it could not get back to the variable.
  have paths : ∀ {a b : Var}, TransGen (s.extend x t).DependsOn a b →
      TransGen s.DependsOn a b ∨
        (ReflTransGen s.DependsOn a x ∧ ∃ y ∈ t.vars, ReflTransGen s.DependsOn y b) := by
    intro a b path
    induction path with
    | single depends =>
      rcases dependsOn_extend depends with ⟨rfl, member⟩ | old
      · -- The path's one step is the new binding, and nothing comes before it.
        exact .inr ⟨.refl, _, member, .refl⟩
      · exact .inl (.single old)
    | tail _ depends earlier =>
      rcases dependsOn_extend depends with ⟨rfl, member⟩ | old
      · rcases earlier with before | ⟨_, y, listed, back⟩
        · exact .inr ⟨before.to_reflTransGen, _, member, .refl⟩
        · -- Taking the binding a second time needs a way back to the variable, and there is none.
          exact absurd back (apart y listed)
      · rcases earlier with before | ⟨reaches, y, listed, back⟩
        · exact .inl (before.tail old)
        · exact .inr ⟨reaches, y, listed, back.tail old⟩
  -- A cycle was there before, or it leads from the new term back to the variable.
  intro z cycle
  rcases paths cycle with old | ⟨reaches, y, listed, back⟩
  · exact acyclic z old
  · exact apart y listed (back.trans reaches)

/-- A binding to an atom closes no cycle, because an atom leads nowhere. -/
theorem Acyclic.extend_of_isAtom (acyclic : s.Acyclic) (atom : t.isAtom = true) :
    (s.extend x t).Acyclic := by
  refine acyclic.extend fun y occurs => ?_
  -- An atom has no variables that a cycle could lead through.
  rw [Term.vars_of_isAtom atom] at occurs
  cases occurs

end Substitution

end Relational
