import Relational.Proofs.Substitution.Resolve
import Relational.Proofs.Term.Renaming

/-! Agreement: substitutions that differ only in which of two variables is bound to the other. -/

namespace Relational.Substitution

open Relation (TransGen)

variable {s s' : Substitution} {c : Var → Var} {x y : Var} {t u r : Term Var}

/-- What a term is walked to, with labels in the place of variables. -/
def view (s : Substitution) (c : Var → Var) (t : Term Var) : Term Var :=
  (s.walk t).map c

/--
Labels that say what variables stand for.

Free variables have labels of their own, and variables with one label stand for terms that differ at
most in variables with one label.
-/
structure Labels (c : Var → Var) (s : Substitution) : Prop where
  settled : s.Settled
  coherent : ∀ x y, c x = c y → s.view c (.var x) = s.view c (.var y)
  distinct : ∀ x y, s.get? x = none → s.get? y = none → c x = c y → x = y

/-- Variables can be their own labels. -/
theorem labels_id (settled : s.Settled) : Labels id s where
  settled := settled
  -- Two variables with the same label are the same variable.
  coherent := fun x y same => by rw [show x = y from same]
  distinct := fun x y _ _ same => same

/-- A term that is no variable is seen as it is. -/
theorem view_of_known (s : Substitution) (c : Var → Var) (known : ∀ x, t ≠ .var x) :
    s.view c t = t.map c := by
  rw [view, walk_of_known s known]

/-- A free variable is seen as its label. -/
theorem view_of_free (c : Var → Var) (free : s.get? x = none) : s.view c (.var x) = .var (c x) := by
  -- A walk from a free variable stays there, and only the label is put in its place.
  rw [view, walk_of_free free, Term.map_var]

/-- Terms with the same labels look the same. -/
theorem Labels.view_congr (labels : Labels c s) (same : t.map c = u.map c) :
    s.view c t = s.view c u := by
  -- Labels decide about variables, and any other term is seen as it is.
  by_cases unknown : ∃ x, t = .var x
  · obtain ⟨x, rfl⟩ := unknown
    obtain ⟨y, rfl, label⟩ := Term.eq_var_of_map same.symm
    exact labels.coherent x y label.symm
  · have known : ∀ x, t ≠ .var x := fun x here => unknown ⟨x, here⟩
    have alsoKnown := Term.known_of_map_eq same known
    rw [view_of_known s c known, view_of_known s c alsoKnown, same]

/-- A term that looks like a free variable is walked to it. -/
theorem Labels.view_eq_var_iff (labels : Labels c s) (free : s.get? x = none) :
    s.view c t = .var (c x) ↔ s.walk t = .var x := by
  refine ⟨fun looks => ?_, fun walked => by rw [view, walked, Term.map_var]⟩
  -- What looks like a variable is one; it ends a walk, so it is free, and free variables have their own labels.
  obtain ⟨y, walked, label⟩ := Term.eq_var_of_map looks
  rw [walked, labels.distinct y x (labels.settled.get?_eq_none walked) free label]

/-- Binding a free variable to a known term replaces its label wherever it was seen. -/
theorem Labels.view_bindKnown (labels : Labels c s) (free : s.get? x = none)
    (known : ∀ y, r ≠ .var y) (t : Term Var) :
    (s.extend x r).view c t = if s.view c t = .var (c x) then r.map c else s.view c t := by
  -- A walk that ended at the variable goes on to the term, any other one ends where it did.
  have walked := labels.settled.walk_extend free (known x) (walk_of_known s known) t
  rw [view, walked]
  by_cases here : s.walk t = .var x
  · rw [if_pos here, if_pos ((labels.view_eq_var_iff free).2 here)]
  · rw [if_neg here, if_neg fun looks => here ((labels.view_eq_var_iff free).1 looks), view]

/-- What is free after a free variable was bound was free before. -/
theorem get?_eq_none_of_extend {z : Var} (free : s.get? x = none)
    (unbound : (s.extend x r).get? z = none) : s.get? z = none := by
  cases bound : s.get? z with
  | none => rfl
  | some u =>
    -- A binding that was there before is kept, and would be found now.
    rw [extends_extend free r z u bound] at unbound
    cases unbound

/-- Binding a free variable to a known term leaves all labels as they are. -/
theorem Labels.bindKnown (labels : Labels c s) (free : s.get? x = none)
    (known : ∀ y, r ≠ .var y) : Labels c (s.extend x r) where
  -- No chain of variables goes on behind a known term.
  settled := labels.settled.extend (known x) fun y same => absurd same (known y)
  coherent := by
    intro y z same
    -- Variables that looked the same have the same label replaced in both places.
    rw [labels.view_bindKnown free known, labels.view_bindKnown free known,
      labels.coherent y z same]
  distinct := fun y z freeFirst freeSecond =>
    -- There are fewer free variables than before, so their labels are still different.
    labels.distinct y z (get?_eq_none_of_extend free freeFirst)
      (get?_eq_none_of_extend free freeSecond)

/-- Two labels become one, and no other labels do. -/
structure Joins (f : Var → Var) (k l : Var) : Prop where
  joined : f k = f l
  only : ∀ i j, f i = f j → i = j ∨ (i = k ∧ j = l) ∨ (i = l ∧ j = k)

/-- It makes no difference which of the two labels is named first. -/
theorem Joins.symm {f : Var → Var} {k l : Var} (joins : Joins f k l) : Joins f l k where
  joined := joins.joined.symm
  -- Labels that are joined are the two named ones, in either order.
  only := fun i j same => (joins.only i j same).imp_right Or.symm

/-- Two labels can be made one by giving the first of them up. -/
theorem exists_joins (k l : Var) : ∃ f : Var → Var, Joins f k l := by
  refine ⟨fun i => if i = k then l else i, by simp, fun i j same => ?_⟩
  -- Only the first label changes, so two labels become equal only with its help.
  by_cases first : i = k
  · by_cases second : j = k
    · exact .inl (first.trans second.symm)
    · simp only [if_pos first, if_neg second] at same
      exact .inr (.inl ⟨first, same.symm⟩)
  · by_cases second : j = k
    · simp only [if_neg first, if_pos second] at same
      exact .inr (.inr ⟨same, second⟩)
    · simp only [if_neg first, if_neg second] at same
      exact .inl same

/-- Binding a free variable to another one makes their labels one, wherever they were seen. -/
theorem Labels.view_bindVar {f : Var → Var} (labels : Labels c s) (free : s.get? x = none)
    (target : s.get? y = none) (apart : x ≠ y) (joined : f (c x) = f (c y)) (t : Term Var) :
    (s.extend x (.var y)).view (f ∘ c) t = (s.view c t).map f := by
  have different : Term.var y ≠ .var x := fun same => apart (Term.var.inj same).symm
  have walked := labels.settled.walk_extend free different (walk_of_free target) t
  rw [view, walked, view, Term.map_map]
  by_cases here : s.walk t = .var x
  · -- The new label of the bound variable is that of the one it is bound to.
    rw [if_pos here, here, Term.map_var, Term.map_var, Function.comp_apply, Function.comp_apply,
      joined]
  · rw [if_neg here]

/-- Binding a free variable to another one leaves labels that say what variables stand for. -/
theorem Labels.bindVar {f : Var → Var} (labels : Labels c s) (free : s.get? x = none)
    (target : s.get? y = none) (apart : x ≠ y) (joins : Joins f (c x) (c y)) :
    Labels (f ∘ c) (s.extend x (.var y)) where
  settled := by
    refine labels.settled.extend (fun same => apart (Term.var.inj same).symm) fun z same => ?_
    -- The chain ends at the other variable, which is free.
    exact Term.var.inj same ▸ target
  coherent := by
    intro w z same
    rw [labels.view_bindVar free target apart joins.joined,
      labels.view_bindVar free target apart joins.joined]
    have looksFree : ∀ {v p : Var}, s.get? p = none → c v = c p →
        s.view c (.var v) = .var (c p) :=
      fun unbound label => (labels.coherent _ _ label).trans (view_of_free c unbound)
    -- Labels that were different before are those of the two variables, which are now one.
    rcases joins.only _ _ same with equal | ⟨first, second⟩ | ⟨first, second⟩
    · rw [labels.coherent w z equal]
    · rw [looksFree free first, looksFree target second, Term.map_var, Term.map_var, joins.joined]
    · rw [looksFree target first, looksFree free second, Term.map_var, Term.map_var, joins.joined]
  distinct := by
    intro w z freeFirst freeSecond same
    -- The bound variable is no longer free, so no other one can have its label.
    have notBound : ∀ {v : Var}, (s.extend x (.var y)).get? v = none → c v ≠ c x := by
      intro v unbound label
      have here := labels.distinct v x (get?_eq_none_of_extend free unbound) free label
      rw [here, get?_extend, if_pos rfl] at unbound
      cases unbound
    rcases joins.only _ _ same with equal | ⟨first, _⟩ | ⟨_, second⟩
    · exact labels.distinct w z (get?_eq_none_of_extend free freeFirst)
        (get?_eq_none_of_extend free freeSecond) equal
    · exact absurd first (notBound freeFirst)
    · exact absurd second (notBound freeSecond)

/-- Two substitutions look the same through one labelling of the variables. -/
structure Agree (c : Var → Var) (s s' : Substitution) : Prop where
  left : Labels c s
  right : Labels c s'
  views : ∀ x, s.view c (.var x) = s'.view c (.var x)

/-- Every settled substitution agrees with itself. -/
theorem Agree.refl (settled : s.Settled) : Agree id s s :=
  -- Every variable is its own label, on both sides.
  ⟨labels_id settled, labels_id settled, fun _ => rfl⟩

/-- Agreement has no direction. -/
theorem Agree.symm (agree : Agree c s s') : Agree c s' s :=
  ⟨agree.right, agree.left, fun x => (agree.views x).symm⟩

/-- Terms with the same labels look the same in substitutions that agree. -/
theorem Agree.view_eq (agree : Agree c s s') (same : t.map c = u.map c) :
    s.view c t = s'.view c u := by
  -- One step changes the term and keeps the substitution, the other one the reverse.
  rw [← agree.right.view_congr same]
  by_cases unknown : ∃ x, t = .var x
  · obtain ⟨x, rfl⟩ := unknown
    exact agree.views x
  · have known : ∀ x, t ≠ .var x := fun x here => unknown ⟨x, here⟩
    rw [view_of_known s c known, view_of_known s' c known]

/-- Substitutions still agree when variables of one label are bound to known terms of the same labels. -/
theorem Agree.bindKnown {x' : Var} {r' : Term Var} (agree : Agree c s s')
    (free : s.get? x = none) (free' : s'.get? x' = none) (label : c x = c x')
    (known : ∀ y, r ≠ .var y) (same : r.map c = r'.map c) :
    Agree c (s.extend x r) (s'.extend x' r') := by
  -- The other term is no variable, either, since renaming does not change what kind of term it is.
  have known' := Term.known_of_map_eq same known
  refine ⟨agree.left.bindKnown free known, agree.right.bindKnown free' known', fun z => ?_⟩
  -- Both sides replace the same label by the same labelled term.
  rw [agree.left.view_bindKnown free known, agree.right.view_bindKnown free' known',
    agree.views z, label, same]

/--
Substitutions still agree when two free variables are bound to each other, whichever way round.

Under joined labels both ways look the same, since a label stands for the two variables at once.
-/
theorem Agree.bindVar {f : Var → Var} {x' y' : Var} (agree : Agree c s s')
    (free : s.get? x = none) (target : s.get? y = none) (apart : x ≠ y)
    (free' : s'.get? x' = none) (target' : s'.get? y' = none) (apart' : x' ≠ y')
    (joins : Joins f (c x) (c y)) (joins' : Joins f (c x') (c y')) :
    Agree (f ∘ c) (s.extend x (.var y)) (s'.extend x' (.var y')) := by
  refine ⟨agree.left.bindVar free target apart joins,
    agree.right.bindVar free' target' apart' joins', fun z => ?_⟩
  -- Both sides replace all labels in the same way, and only what was seen before enters.
  rw [agree.left.view_bindVar free target apart joins.joined,
    agree.right.view_bindVar free' target' apart' joins'.joined, agree.views z]

/-- A variable depends on all variables of the known term that it is walked to. -/
theorem transGen_of_walk (walked : s.walk (.var x) = t) (known : ∀ z, t ≠ .var z)
    (occurs : y ∈ t.vars) : TransGen s.DependsOn x y := by
  -- Each hop goes to a term whose variables the first one depends on.
  have reached := s.walk_induction (t := .var x)
    (fun u => u = .var x ∨ ∀ z ∈ u.vars, TransGen s.DependsOn x z) ?_ (.inl rfl)
  · rw [walked] at reached
    rcases reached with same | depends
    · exact absurd same (known x)
    · exact depends y occurs
  · intro w u bound earlier
    refine .inr fun z member => ?_
    rcases earlier with same | depends
    · obtain rfl := Term.var.inj same
      exact .single ⟨u, bound, member⟩
    · exact (depends w (List.mem_singleton.2 rfl)).tail ⟨u, bound, member⟩

/-- What looks the same as a grounded variable in a substitution that agrees can be resolved there. -/
theorem Agree.resolvable_of_view (agree : Agree c s s') (grounded : s.Grounded x)
    (looks : s.view c (.var x) = s'.view c u) : s'.Resolvable u := by
  -- The walk makes several dependencies at once, so the induction is along paths of them.
  have transitive : Acc (TransGen fun y x => s.DependsOn x y) x := grounded.transGen
  clear grounded
  induction transitive generalizing u with
  | intro x _ lower =>
    -- On the other side a chain of variables may come first, and a known term ends both chains.
    induction u using agree.right.settled.chainInduction with
    | known u known =>
      intro y occurs
      rw [view_of_known s' c known] at looks
      obtain ⟨z, member, label⟩ := Term.exists_mem_vars_of_map_eq looks occurs
      have depends := transGen_of_walk rfl (Term.known_of_map_eq looks.symm known) member
      have same : (Term.var z).map c = (Term.var y).map c := by rw [Term.map_var, Term.map_var, label]
      -- The variable has the label of one further down on the first side.
      exact lower z (Relation.transGen_swap.2 depends) (agree.view_eq same) y
        (List.mem_singleton.2 rfl)
    | free y free =>
      intro z occurs
      rw [List.mem_singleton.1 occurs]
      exact grounded_of_free free
    | bound y u bound ih =>
      intro z occurs
      rw [List.mem_singleton.1 occurs]
      have further : s'.Resolvable u := by
        refine ih ?_
        rw [looks, view, view, agree.right.settled.walk_bound bound]
      -- What the variable depends on occurs in the term it is bound to.
      refine ⟨y, fun w depends => ?_⟩
      obtain ⟨v, found, member⟩ := depends
      rw [bound] at found
      exact further w (Option.some.inj found ▸ member)

/-- In substitutions that agree, terms with the same labels can both be resolved or both not. -/
theorem Agree.resolvable (agree : Agree c s s') (same : t.map c = u.map c)
    (resolvable : s.Resolvable t) : s'.Resolvable u := by
  intro y occurs
  -- A variable of one term has the label of a variable of the other one.
  obtain ⟨x, member, label⟩ := Term.exists_mem_vars_of_map_eq same occurs
  have alike : (Term.var x).map c = (Term.var y).map c := by rw [Term.map_var, Term.map_var, label]
  exact agree.resolvable_of_view (resolvable x member) (agree.view_eq alike) y
    (List.mem_singleton.2 rfl)

/-- Following bindings in front of a grounded variable does not change what it stands for. -/
theorem Grounded.walkStar_walk (grounded : s.Grounded x) :
    s.walkStar (s.walk (.var x)) = s.walkStar (.var x) := by
  -- Each hop leads to a term that can be resolved, because the variable leads into no cycle.
  have followed := s.walk_induction (t := .var x)
    (fun u => s.Resolvable u ∧ s.walkStar u = s.walkStar (.var x)) ?_ ⟨?_, rfl⟩
  · exact followed.2
  · intro y u bound earlier
    obtain ⟨resolvable, same⟩ := earlier
    have here := resolvable y (List.mem_singleton.2 rfl)
    refine ⟨fun z occurs => here.of_dependsOn ⟨u, bound, occurs⟩, ?_⟩
    rw [← same, here.walkStar_var bound]
  · intro y occurs
    rw [List.mem_singleton.1 occurs]
    exact grounded

/-- Terms are resolved alike if their variables are. -/
theorem walkStar_map_eq_of_vars
    (alike : ∀ x ∈ t.vars, ∀ y, c x = c y →
      (s.walkStar (.var x)).map c = (s'.walkStar (.var y)).map c)
    (same : t.map c = u.map c) : (s.walkStar t).map c = (s'.walkStar u).map c := by
  -- Renaming goes into a term as resolving does, and evaluation is the same under any names.
  induction t generalizing u with
  | var x =>
    -- A variable is renamed to a variable, so the other term is one, too.
    obtain ⟨y, rfl, label⟩ := Term.eq_var_of_map same.symm
    exact alike x (List.mem_singleton.2 rfl) y label.symm
  | pair a d first rest =>
    obtain ⟨a', d', rfl, firstSame, restSame⟩ := Term.eq_pair_of_map same.symm
    rw [walkStar_pair, walkStar_pair, Term.map_pair, Term.map_pair,
      first (fun x member => alike x (List.mem_append_left _ member)) firstSame.symm,
      rest (fun x member => alike x (List.mem_append_right _ member)) restSame.symm]
  | expr l op r left right =>
    obtain ⟨l', r', rfl, leftSame, rightSame⟩ := Term.eq_expr_of_map same.symm
    rw [walkStar_expr, walkStar_expr, Term.map_evaluated, Term.map_evaluated,
      left (fun x member => alike x (List.mem_append_left _ member)) leftSame.symm,
      right (fun x member => alike x (List.mem_append_right _ member)) rightSame.symm]
  | _ =>
    -- What has no variables is the same on both sides.
    obtain rfl := Term.eq_of_map_eq same rfl
    rw [walkStar_eq_resolve, walkStar_eq_resolve s']
    rfl

/--
Terms with the same labels are resolved to terms with the same labels.

The induction is on what the variables of the first term depend on, through the terms they stand for.
-/
theorem Agree.walkStar_map_eq (agree : Agree c s s') (same : t.map c = u.map c)
    (resolvable : s.Resolvable t) : (s.walkStar t).map c = (s'.walkStar u).map c := by
  have ofVar : ∀ x, Acc (TransGen fun y x => s.DependsOn x y) x → s.Grounded x → ∀ y, c x = c y →
      (s.walkStar (.var x)).map c = (s'.walkStar (.var y)).map c := by
    intro x transitive
    induction transitive with
    | intro x _ lower =>
      intro grounded y label
      have alike : (Term.var x).map c = (Term.var y).map c := by
        rw [Term.map_var, Term.map_var, label]
      have grounded' := agree.resolvable_of_view grounded (agree.view_eq alike) y
        (List.mem_singleton.2 rfl)
      have seen : (s.walk (.var x)).map c = (s'.walk (.var y)).map c := agree.view_eq alike
      rw [← grounded.walkStar_walk, ← grounded'.walkStar_walk]
      by_cases unknown : ∃ z, s.walk (.var x) = .var z
      · -- Both chains end in free variables, which have one label.
        obtain ⟨z, walked⟩ := unknown
        rw [walked] at seen
        obtain ⟨z', walked', label'⟩ := Term.eq_var_of_map seen.symm
        rw [walked, walked', walkStar_of_free (agree.left.settled.get?_eq_none walked),
          walkStar_of_free (agree.right.settled.get?_eq_none walked'), Term.map_var, Term.map_var,
          label']
      · -- Both chains end in known terms, whose variables are further down.
        have known : ∀ z, s.walk (.var x) ≠ .var z := fun z walked => unknown ⟨z, walked⟩
        refine walkStar_map_eq_of_vars (fun z member => ?_) seen
        have depends := transGen_of_walk rfl known member
        exact lower z (Relation.transGen_swap.2 depends) (grounded.of_transGen depends)
  exact walkStar_map_eq_of_vars
    (fun x member => ofVar x (resolvable x member).transGen (resolvable x member)) same

end Relational.Substitution
