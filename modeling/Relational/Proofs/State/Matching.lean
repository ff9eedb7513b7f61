import Relational.Proofs.State.Learning
import Relational.Proofs.State.Symmetry

/-! Matching: what an equation between unknown and known terms adds to a state. -/

namespace Relational.State

variable {s s' : State} {u v t value : Term Var} {x : Var} {depth : Nat}

/-- An unknown that is unified with a known term learns its value, in either order. -/
theorem unifyTurned_learns (turned : Bool) (tidy : s.Tidy) (stands : s.walkStar u = .var x)
    (left : u.Below s.nextVar) (right : v.Below s.nextVar) (known : ∀ y, s.walkStar v ≠ .var y)
    (absent : x ∉ (s.walkStar v).vars) :
    ∃ s', unifyTurned turned (depth + 1) s u v = .singleton s' ∧
      s.Learns u (s.walkStar v) s' := by
  -- What stands for a free variable is walked to it, so that one is bound.
  have walked := walk_eq_var tidy.acyclic stands
  have free := Substitution.get?_eq_none_of_walk tidy.acyclic walked
  refine ⟨_, unifyTurned_knownRight turned walked free fun y unknown => ?_,
    learns_bind tidy stands left right absent⟩
  exact known y (walkStar_eq_var tidy.acyclic unknown)

/-- At least one step of a unification is allowed, and then as many as the value is deep. -/
theorem exists_depthBound_eq (s : State) (u v : Term Var) :
    ∃ depth, s.depthBound u v = depth + 1 ∧ (s.walkStar u).height < depth := by
  -- The bound on the depth leaves room for two steps more than the height.
  have deep := height_le_depthBound s u v
  exact ⟨s.depthBound u v - 1, by omega, by omega⟩

/-- An unknown that is unified with a known term learns its value. -/
theorem unify_learns (tidy : s.Tidy) (stands : s.walkStar u = .var x) (left : u.Below s.nextVar)
    (right : v.Below s.nextVar) (known : ∀ y, s.walkStar v ≠ .var y)
    (absent : x ∉ (s.walkStar v).vars) :
    ∃ s', s.unify u v = .singleton s' ∧ s.Learns u (s.walkStar v) s' := by
  obtain ⟨depth, bound, _⟩ := exists_depthBound_eq s u v
  rw [unify, bound]
  -- The first of the allowed steps already makes the binding.
  exact unifyTurned_learns false tidy stands left right known absent

/-- A pair that stands for a value has components that do. -/
theorem exists_pair_of_walkStar {a d : Term Var} {w : Value}
    (stands : s.walkStar (.pair a d) = w.term) :
    ∃ first rest, w = .pair first rest ∧ s.walkStar a = first.term ∧ s.walkStar d = rest.term := by
  -- A pair is resolved to a pair of what its components stand for.
  rw [walkStar, Substitution.walkStar_pair] at stands
  cases w with
  | pair first rest =>
    obtain ⟨head, tail⟩ := Term.pair.inj stands
    exact ⟨first, rest, rfl, head, tail⟩
  | _ => cases stands

/--
Two values are unified without a change, or not at all if they are different.

The induction is on the depth, and a depth that is not enough gives nothing, either.
-/
theorem unifyWithin_values {a b : Value} (acyclic : s.bindings.Acyclic)
    (left : s.walkStar u = a.term) (right : s.walkStar v = b.term) :
    unifyWithin depth s u v = .empty ∨ unifyWithin depth s u v = .singleton s ∧ a = b := by
  induction depth generalizing u v a b with
  | zero => exact .inl rfl
  | succ depth ih =>
    -- Values are no variables, so neither of the two walks ends at one.
    have leftKnown : ∀ x, s.walk u ≠ .var x := fun x walked =>
      a.term_ne_var x (left.symm.trans (walkStar_eq_var acyclic walked))
    have rightKnown : ∀ y, s.walk v ≠ .var y := fun y walked =>
      b.term_ne_var y (right.symm.trans (walkStar_eq_var acyclic walked))
    have leftValue := (walkStar_walk_self acyclic u).trans left
    have rightValue := (walkStar_walk_self acyclic v).trans right
    by_cases involved : (s.walk u).isExpr = true ∨ (s.walk v).isExpr = true
    · -- What an expression stands for is compared in its place.
      have step : unifyTurned false (depth + 1) s u v = _ :=
        unifyTurned_values false ⟨leftKnown, rightKnown, involved⟩
          (by rw [leftValue, Value.isExpr_term]) (by rw [rightValue, Value.isExpr_term])
      rw [leftValue, rightValue] at step
      have stays : ∀ w : Value, s.walkStar w.term = w.term := Value.walkStar_term s.bindings
      exact (ih (stays a) (stays b)).imp step.trans fun found => ⟨step.trans found.1, found.2⟩
    · by_cases pairs : ∃ a d a' d', s.walk u = .pair a d ∧ s.walk v = .pair a' d'
      · -- Pairs are unified by their components, and the first ones have changed nothing.
        obtain ⟨first, rest, first', rest', leftPair, rightPair⟩ := pairs
        rw [leftPair] at leftValue
        rw [rightPair] at rightValue
        obtain ⟨A, D, rfl, head, tail⟩ := exists_pair_of_walkStar leftValue
        obtain ⟨A', D', rfl, head', tail'⟩ := exists_pair_of_walkStar rightValue
        rw [unifyWithin_pairs leftPair rightPair]
        rcases ih head head' with none | ⟨same, rfl⟩
        · exact .inl (by rw [none]; rfl)
        · rw [same, Stream.flatMap_singleton]
          exact (ih tail tail').imp_right fun found => ⟨found.1, by rw [found.2]⟩
      · -- Two leaves that stand for values are compared as they are.
        have notPairs : ∀ a d a' d', s.walk u = .pair a d → s.walk v ≠ .pair a' d' :=
          fun a d a' d' leftPair rightPair => pairs ⟨a, d, a', d', leftPair, rightPair⟩
        have step : unifyTurned false (depth + 1) s u v = _ :=
          unifyTurned_leaves false leftKnown rightKnown notPairs involved
        by_cases same : s.walk u = s.walk v
        · rw [if_pos same] at step
          rw [same, rightValue] at leftValue
          exact .inr ⟨step, Value.term_injective leftValue.symm⟩
        · rw [if_neg same] at step
          exact .inl step

/-- What is known of a term: the value it stands for, or nothing if it is a free variable. -/
def Shows (s : State) (t : Term Var) : Option Value → Prop
  | none => ∃ x, s.walkStar t = .var x
  | some w => s.walkStar t = w.term

/-- What is known of a variable: the value it stands for, or nothing but itself. -/
theorem shows_of_walkStar_eq {known : Option Value}
    (stands : s.walkStar t = known.elim (.var x) Value.term) : s.Shows t known := by
  cases known with
  | none => exact ⟨x, stands⟩
  | some w => exact stands

/-- A variable in what is known is the one that nothing is known of. -/
theorem eq_of_mem_vars_elim {known : Option Value} {y : Var}
    (occurs : y ∈ (known.elim (.var x) Value.term).vars) : y = x := by
  cases known with
  -- The term is the variable, or a value without any.
  | none => exact List.mem_singleton.1 occurs
  | some w =>
    rw [Option.elim_some, Value.vars_term] at occurs
    cases occurs

/-- Nothing is lost of what is known of a term, unless it is a variable that was used. -/
theorem Uses.shows {known : Option Value} {used : Var → Prop} (uses : s.Uses used s')
    (tidy : s.Tidy) (below : t.Below s.nextVar) (shows : s.Shows t known)
    (unused : ∀ y ∈ (s.walkStar t).vars, ¬ used y) : s'.Shows t known := by
  -- What the term stands for has not changed, whatever that is.
  have same := uses.walkStar_eq tidy below unused
  cases known with
  | none =>
    obtain ⟨y, free⟩ := shows
    exact ⟨y, same.trans free⟩
  | some w => exact same.trans shows

/-- A term that nothing else is known of learns a value it is unified with, in either order. -/
theorem unifyTurned_agrees (turned : Bool) (tidy : s.Tidy) {known : Option Value} {w : Value}
    (shows : s.Shows u known) (agrees : ∀ k ∈ known, k = w) (stands : s.walkStar v = w.term)
    (left : u.Below s.nextVar) (right : v.Below s.nextVar)
    (deep : (w.term : Term Var).height + 2 ≤ depth) :
    ∃ s', unifyTurned turned depth s u v = .singleton s' ∧ s.Learns u w.term s' := by
  cases known with
  | none =>
    -- A free variable is bound, since it cannot occur in a value.
    obtain ⟨x, free⟩ := shows
    obtain ⟨less, rfl⟩ : ∃ less, depth = less + 1 := ⟨depth - 1, by omega⟩
    rw [← stands]
    refine unifyTurned_learns turned tidy free left right (fun y => ?_) ?_
    · rw [stands]
      exact w.term_ne_var y
    · rw [stands, Value.vars_term]
      exact List.not_mem_nil
  | some k =>
    -- Where both sides stand for the same already, the state stays as it is.
    obtain rfl := agrees k rfl
    have same : s.walkStar u = s.walkStar v := Eq.trans shows stands.symm
    refine ⟨s, ?_, .refl tidy, shows⟩
    cases turned with
    | false => exact unifyWithin_of_walkStar_eq tidy.acyclic same (by rwa [same, stands])
    | true => exact unifyWithin_of_walkStar_eq tidy.acyclic same.symm (by rwa [stands])

/-- A term is not unified with a value other than its own. -/
theorem unifyTurned_differs (turned : Bool) (tidy : s.Tidy) {k w : Value}
    (left : s.walkStar u = k.term) (right : s.walkStar v = w.term) (different : k ≠ w) :
    unifyTurned turned depth s u v = .empty := by
  cases turned with
  -- Two values are unified without a change or not at all, and the first needs them to be the same.
  | false => exact (unifyWithin_values tidy.acyclic left right).resolve_right fun found =>
      different found.2
  | true => exact (unifyWithin_values tidy.acyclic right left).resolve_right fun found =>
      different found.2.symm

/-- A term that nothing else is known of learns a value it is unified with. -/
theorem unify_agrees (tidy : s.Tidy) {known : Option Value} {w : Value} (shows : s.Shows u known)
    (agrees : ∀ k ∈ known, k = w) (stands : s.walkStar v = w.term) (left : u.Below s.nextVar)
    (right : v.Below s.nextVar) :
    ∃ s', s.unify u v = .singleton s' ∧ s.Learns u w.term s' := by
  refine unifyTurned_agrees false tidy shows agrees stands left right ?_
  -- The depth is bounded in the same way for both orders, so the height of the value fits.
  rw [← stands, ← depthBound_comm]
  exact height_le_depthBound s v u

/-- A term that nothing else is known of learns a value that is unified with it. -/
theorem unify_agrees_right (tidy : s.Tidy) {known : Option Value} {w : Value} (shows : s.Shows u known)
    (agrees : ∀ k ∈ known, k = w) (stands : s.walkStar v = w.term) (left : u.Below s.nextVar)
    (right : v.Below s.nextVar) :
    ∃ s', s.unify v u = .singleton s' ∧ s.Learns u w.term s' := by
  refine unifyTurned_agrees true tidy shows agrees stands left right ?_
  rw [← stands]
  exact height_le_depthBound s v u

/-- A term cannot be equal to a value other than its own. -/
theorem unify_differs (tidy : s.Tidy) {k w : Value} (left : s.walkStar u = k.term)
    (right : s.walkStar v = w.term) (different : k ≠ w) : s.unify u v = .empty :=
  unifyTurned_differs false tidy left right different

/-- What stands for no atom and no expression is walked to a term of the same shape. -/
theorem walk_cases (acyclic : s.bindings.Acyclic) (compound : (s.walkStar u).isAtom = false)
    (plain : (s.walkStar u).isExpr = false) :
    (s.walk u = .unit ∧ s.walkStar u = .unit) ∨
      (∃ x, s.walkStar u = .var x) ∨
      ∃ a d, s.walk u = .pair a d ∧ s.walkStar u = .pair (s.walkStar a) (s.walkStar d) := by
  have same := walkStar_walk_self acyclic u
  cases walked : s.walk u with
  -- By cases on where the walk ends: only these three stand for something that is neither atom nor expression.
  | var x => exact .inr (.inl ⟨x, walkStar_eq_var acyclic walked⟩)
  | pair a d =>
    rw [walked, walkStar, Substitution.walkStar_pair] at same
    exact .inr (.inr ⟨a, d, rfl, same.symm⟩)
  | expr l op r =>
    -- An expression stands for a value or for an expression.
    have atom := isAtom_walkStar acyclic (by rw [walked]; rfl) plain
    rw [compound] at atom
    cases atom
  | unit =>
    rw [walked, walkStar, Substitution.walkStar_eq_resolve] at same
    exact .inl ⟨rfl, same.symm⟩
  | _ =>
    rw [walked, walkStar, Substitution.walkStar_of_isAtom _ rfl] at same
    rw [← same] at compound
    cases compound

/-- A term that stands for a pair is walked to one. -/
theorem exists_walk_pair {first rest : Term Var} (acyclic : s.bindings.Acyclic)
    (stands : s.walkStar u = .pair first rest) :
    ∃ a d, s.walk u = .pair a d ∧ s.walkStar a = first ∧ s.walkStar d = rest := by
  rcases walk_cases acyclic (by rw [stands]; rfl) (by rw [stands]; rfl) with
    ⟨_, same⟩ | ⟨x, same⟩ | ⟨a, d, walked, same⟩
  · -- Neither the empty list nor a free variable stands for a pair.
    cases stands.symm.trans same
  · cases stands.symm.trans same
  · obtain ⟨head, tail⟩ := Term.pair.inj (stands.symm.trans same)
    exact ⟨a, d, walked, head.symm, tail.symm⟩

/-- A term that stands for the empty list is walked to it. -/
theorem walk_eq_unit (acyclic : s.bindings.Acyclic) (stands : s.walkStar u = .unit) :
    s.walk u = .unit := by
  rcases walk_cases acyclic (by rw [stands]; rfl) (by rw [stands]; rfl) with
    ⟨walked, _⟩ | ⟨x, same⟩ | ⟨a, d, _, same⟩
  · exact walked
  · -- Neither a free variable nor a pair stands for the empty list.
    cases stands.symm.trans same
  · cases stands.symm.trans same

/-- A pair is walked to itself. -/
theorem walk_pair (s : State) (a d : Term Var) : s.walk (.pair a d) = .pair a d :=
  Substitution.walk_of_known _ nofun

/-- The empty list is no pair. -/
theorem unify_unit_pair {a d : Term Var} (acyclic : s.bindings.Acyclic)
    (stands : s.walkStar u = .unit) : s.unify u (.pair a d) = .empty := by
  have left := walk_eq_unit acyclic stands
  have right := s.walk_pair a d
  obtain ⟨depth, bound, _⟩ := exists_depthBound_eq s u (.pair a d)
  -- There is no variable, no expression and only one pair, so the two terms would have to be equal.
  have step : unifyTurned false (depth + 1) s u (.pair a d) = _ :=
    unifyTurned_leaves false (by rw [left]; nofun) (by rw [right]; nofun) (by rw [left]; nofun)
      (by rw [left, right]; nofun)
  rw [left, right, if_neg nofun] at step
  rw [unify, bound]
  exact step

/-- A list that is known to be empty is equal to the empty list as it is. -/
theorem unify_nil (acyclic : s.bindings.Acyclic) (list : s.walkStar u = (Value.list []).term) :
    s.unify u .unit = .singleton s := by
  have unit : s.walkStar .unit = (Value.list []).term := Value.walkStar_term _ .unit
  -- Both sides stand for the same before anything is bound.
  exact unify_of_walkStar_eq acyclic (list.trans unit.symm) (Nat.le_refl _)

/-- A list that is known to have an item is not empty. -/
theorem unify_nil_of_occupied {item : Value} {items : List Value} (tidy : s.Tidy)
    (list : s.walkStar u = (Value.list (item :: items)).term) : s.unify u .unit = .empty := by
  have unit : s.walkStar .unit = (Value.list []).term := Value.walkStar_term _ .unit
  -- A list with an item is another value than the empty one.
  exact unify_differs tidy list unit nofun

/-- A term that stands for a pair is unified with another pair by their components. -/
theorem exists_unify_pair {a d : Term Var} {first rest : Value} (tidy : s.Tidy)
    (stands : s.walkStar u = .pair first.term rest.term) (below : u.Below s.nextVar) :
    ∃ a' d' depth, a'.Below s.nextVar ∧ d'.Below s.nextVar ∧ s.walkStar a' = first.term ∧
      s.walkStar d' = rest.term ∧ (first.term : Term Var).height + 2 ≤ depth ∧
      (rest.term : Term Var).height + 2 ≤ depth ∧
      s.unify u (.pair a d) = (unifyTurned true depth s a a').flatMap fun middle =>
        unifyTurned true depth middle d d' := by
  obtain ⟨a', d', walked, head, tail⟩ := exists_walk_pair tidy.acyclic stands
  have inside : (s.walk u).Below s.nextVar := tidy.allocated.walk below
  rw [walked, Term.below_pair_iff] at inside
  -- The depth that is allowed for the whole is enough for each of its components.
  obtain ⟨depth, bound, deep⟩ := exists_depthBound_eq s u (.pair a d)
  rw [stands, Term.height] at deep
  refine ⟨a', d', depth, inside.1, inside.2, head, tail, by omega, by omega, ?_⟩
  rw [unify, bound]
  exact unifyTurned_pairs true (s.walk_pair a d) walked

/--
A pair of a shown and an unknown term is unified with a pair of values.

The first component is compared, or learned if nothing is known of it, and then the other one is
learned.
-/
theorem unify_pair_agrees {a d : Term Var} {first rest : Value} {known : Option Value} {z : Var}
    (tidy : s.Tidy) (stands : s.walkStar u = .pair first.term rest.term) (shows : s.Shows a known)
    (agrees : ∀ k ∈ known, k = first) (free : s.walkStar d = .var z)
    (apart : z ∉ (s.walkStar a).vars) (below : u.Below s.nextVar) (head : a.Below s.nextVar)
    (tail : d.Below s.nextVar) :
    ∃ s', s.unify u (.pair a d) = .singleton s' ∧
      s.Uses (fun y => y ∈ (s.walkStar a).vars ∨ y = z) s' ∧
      s'.walkStar a = first.term ∧ s'.walkStar d = rest.term := by
  -- The known pair is on the left, so the components are unified in the turned order.
  obtain ⟨a', d', depth, inFirst, inRest, firstValue, restValue, firstDeep, restDeep, step⟩ :=
    exists_unify_pair (a := a) (d := d) tidy stands below
  obtain ⟨middle, found, learns⟩ :=
    unifyTurned_agrees true tidy shows agrees firstValue head inFirst firstDeep
  -- What was learned about the first component does not touch the other one.
  have still : middle.walkStar d = .var z := by
    rw [learns.walkStar_eq tidy tail, free]
    intro y occurs
    rw [free] at occurs
    exact List.mem_singleton.1 occurs ▸ apart
  have unknown : middle.Shows d none := ⟨z, still⟩
  obtain ⟨s', foundRest, learnsRest⟩ := unifyTurned_agrees true learns.tidy unknown nofun
    (learns.walkStar_value restValue) (tail.mono learns.counts) (inRest.mono learns.counts) restDeep
  refine ⟨s', ?_, (learns.toUses.mono fun y _ => .inl).trans learnsRest.toUses fun y _ same => ?_,
    learnsRest.walkStar_value learns.value, learnsRest.value⟩
  · rw [step, found, Stream.flatMap_singleton, foundRest]
  · rw [still] at same
    exact .inr (List.mem_singleton.1 same)

/-- A pair is not unified with one of values if its first component has another value. -/
theorem unify_pair_differs {a d : Term Var} {first rest k : Value} (tidy : s.Tidy)
    (stands : s.walkStar u = .pair first.term rest.term) (shows : s.walkStar a = k.term)
    (different : k ≠ first) (below : u.Below s.nextVar) : s.unify u (.pair a d) = .empty := by
  obtain ⟨a', d', depth, _, _, firstValue, _, _, _, step⟩ :=
    exists_unify_pair (a := a) (d := d) tidy stands below
  -- The first components are already different values, and the second ones are not looked at.
  rw [step, unifyTurned_differs true tidy shows firstValue different]
  rfl

/-- Terms that were unified in one state stand for the same in every later state. -/
theorem walkStar_eq_of_unify {later : State} (unified : s.unify u v = .singleton s')
    (acyclic : later.bindings.Acyclic) (keeps : later.bindings.Extends s'.bindings) :
    later.walkStar u = later.walkStar v := by
  -- The state that was found is reached at once, and unification makes its terms stand for the same.
  have reached : Stream.Reached Stream.noJobs s' (s.unify u v) := ⟨0, by rw [unified]; exact .head⟩
  exact (unifies_of_reached reached).walkStar_eq acyclic keeps

/--
A list has been taken apart into its first item and the rest.

The first two of some fresh variables stand for them if the list is known, and are still free if it is
not.
-/
structure Opens (s : State) (u : Term Var) (count : Nat) (items : Option (List Value)) (s' : State) :
    Prop extends Uses s (· ∈ (s.walkStar u).vars) s' where
  room : s.nextVar + count ≤ s'.nextVar
  first : s'.walkStar (.var ⟨s.nextVar⟩) =
    (items.bind List.head?).elim (.var ⟨s.nextVar⟩) Value.term
  rest : s'.walkStar (.var ⟨s.nextVar + 1⟩) =
    ((items.map List.tail).map Value.list).elim (.var ⟨s.nextVar + 1⟩) Value.term
  more : ∀ i, 2 ≤ i → i < count →
    s'.walkStar (.var ⟨s.nextVar + i⟩) = .var ⟨s.nextVar + i⟩

namespace Opens

variable {count i : Nat} {items : Option (List Value)} {y : Var}

/-- The fresh variables have been allocated. -/
theorem below_new (opens : s.Opens u count items s') (within : i < count) :
    (Term.var ⟨s.nextVar + i⟩).Below s'.nextVar :=
  -- Their numbers follow the counter, which has moved past all of them.
  Term.below_var_iff.2 (Nat.lt_of_lt_of_le (Nat.add_lt_add_left within _) opens.room)

/-- Of three fresh variables, the last one is still free. -/
theorem third (opens : s.Opens u 3 items s') :
    s'.walkStar (.var ⟨s.nextVar + 2⟩) = .var ⟨s.nextVar + 2⟩ :=
  opens.more 2 (Nat.le_refl 2) (Nat.lt_succ_self 2)

/-- The variable for the first item stands for a value or for itself. -/
theorem eq_of_mem_first (opens : s.Opens u count items s')
    (occurs : y ∈ (s'.walkStar (.var ⟨s.nextVar⟩)).vars) : y = ⟨s.nextVar⟩ := by
  -- It is known, or it is free.
  rw [opens.first] at occurs
  exact eq_of_mem_vars_elim occurs

/-- The variable for the rest stands for a value or for itself. -/
theorem eq_of_mem_rest (opens : s.Opens u count items s')
    (occurs : y ∈ (s'.walkStar (.var ⟨s.nextVar + 1⟩)).vars) : y = ⟨s.nextVar + 1⟩ := by
  rw [opens.rest] at occurs
  exact eq_of_mem_vars_elim occurs

/--
A list that has been taken apart learns what its two parts learn.

Whatever happens to fresh variables later on, no other variables are used for it.
-/
theorem learns {later : State} (opens : s.Opens u count items s')
    (opened : (s.freshVars count).2.unify u (.pair (.var ⟨s.nextVar⟩) (.var ⟨s.nextVar + 1⟩)) =
      .singleton s')
    (uses : s'.Uses (s.nextVar ≤ ·.id) later) :
    s.Learns u (.pair (later.walkStar (.var ⟨s.nextVar⟩)) (later.walkStar (.var ⟨s.nextVar + 1⟩)))
      later := by
  refine ⟨opens.toUses.trans uses fun y old new => absurd old (Nat.not_lt.2 new), ?_⟩
  -- The list and the pair were made equal, and still are.
  rw [walkStar_eq_of_unify opened uses.tidy.acyclic uses.keeps, walkStar,
    Substitution.walkStar_pair]
  rfl

end Opens

section Opening

variable {count : Nat} (tidy : s.Tidy) (below : u.Below s.nextVar) (enough : 2 ≤ count)

include tidy below enough

/-- An unknown list is taken apart by becoming the pair of two fresh variables. -/
theorem exists_opens_of_unknown (unknown : s.walkStar u = .var x) :
    ∃ s', (s.freshVars count).2.unify u (.pair (.var ⟨s.nextVar⟩) (.var ⟨s.nextVar + 1⟩)) =
        .singleton s' ∧ s.Opens u count none s' := by
  -- The fresh variables are taken before the list is looked at.
  have fresh : s.Uses (· ∈ (s.walkStar u).vars) (s.freshVars count).2 := .freshVars tidy count
  have apart : ∀ i, ⟨s.nextVar + i⟩ ∉ (s.walkStar u).vars := fun i =>
    tidy.not_mem_of_le below (Nat.le_add_right _ i)
  have allocated : ∀ i, i < count → s.nextVar + i < (s.freshVars count).2.nextVar := fun i within =>
    Nat.add_lt_add_left within _
  have parts : s.walkStar (.pair (.var ⟨s.nextVar⟩) (.var ⟨s.nextVar + 1⟩)) =
      .pair (.var ⟨s.nextVar⟩) (.var ⟨s.nextVar + 1⟩) := by
    rw [walkStar, Substitution.walkStar_pair]
    exact congrArg₂ Term.pair (tidy.walkStar_new (Nat.le_refl _))
      (tidy.walkStar_new (Nat.le_add_right _ 1))
  -- The list stands for an old variable, so it is neither of the two.
  have absent : x ∉ (s.walkStar (.pair (.var ⟨s.nextVar⟩) (.var ⟨s.nextVar + 1⟩))).vars := by
    rw [parts]
    rw [unknown] at apart
    intro occurs
    rcases List.mem_pair.1 occurs with rfl | rfl
    · exact apart 0 (List.mem_singleton.2 rfl)
    · exact apart 1 (List.mem_singleton.2 rfl)
  have inside : (Term.pair (.var ⟨s.nextVar⟩) (.var ⟨s.nextVar + 1⟩)).Below
      (s.freshVars count).2.nextVar := by
    rw [Term.below_pair_iff, Term.below_var_iff, Term.below_var_iff]
    exact ⟨allocated 0 (by omega), allocated 1 (by omega)⟩
  obtain ⟨s', found, learns⟩ := unify_learns fresh.tidy unknown (below.mono fresh.counts) inside
    (fun y same => by cases parts.symm.trans same) absent
  -- No fresh variable was used, so all of them are as free as before.
  have unused : ∀ i, i < count → s'.walkStar (.var ⟨s.nextVar + i⟩) = .var ⟨s.nextVar + i⟩ :=
    fun i within => learns.walkStar_var (allocated i within)
      (tidy.free_of_le (Nat.le_add_right _ i)) (apart i)
  exact ⟨s', found, fresh.trans learns.toUses fun y _ same => same, learns.counts,
    unused 0 (by omega), unused 1 (by omega), fun i _ => unused i⟩

/-- A known list is taken apart by giving its first item and its rest to two fresh variables. -/
theorem exists_opens_of_known {item : Value} {items : List Value}
    (known : s.walkStar u = (Value.list (item :: items)).term) :
    ∃ s', (s.freshVars count).2.unify u (.pair (.var ⟨s.nextVar⟩) (.var ⟨s.nextVar + 1⟩)) =
        .singleton s' ∧ s.Opens u count (some (item :: items)) s' := by
  have fresh : s.Uses (· ∈ (s.walkStar u).vars) (s.freshVars count).2 := .freshVars tidy count
  have allocated : ∀ i, i < count → s.nextVar + i < (s.freshVars count).2.nextVar := fun i within =>
    Nat.add_lt_add_left within _
  have first : s.walkStar (.var ⟨s.nextVar⟩) = .var ⟨s.nextVar⟩ := tidy.walkStar_new (Nat.le_refl _)
  have rest : s.walkStar (.var ⟨s.nextVar + 1⟩) = .var ⟨s.nextVar + 1⟩ :=
    tidy.walkStar_new (Nat.le_add_right _ 1)
  have distinct : ⟨s.nextVar + 1⟩ ∉ (s.walkStar (.var ⟨s.nextVar⟩)).vars := by
    rw [first]
    simp [Term.vars]
  -- A list with an item stands for a pair of the item and the list of the others.
  have pair : s.walkStar u = .pair item.term (Value.list items).term := known
  have unknown : (s.freshVars count).2.Shows (.var ⟨s.nextVar⟩) none := ⟨_, first⟩
  obtain ⟨s', found, uses, firstValue, restValue⟩ := unify_pair_agrees fresh.tidy pair unknown
    (fun k shown => absurd shown (Option.not_mem_none k)) rest distinct (below.mono fresh.counts)
    (Term.below_var_iff.2 (allocated 0 (by omega))) (Term.below_var_iff.2 (allocated 1 (by omega)))
  -- Both variables that were used are fresh ones, and the first two of them.
  have used : ∀ y : Var, y ∈ (s.walkStar (.var ⟨s.nextVar⟩)).vars ∨ y = ⟨s.nextVar + 1⟩ →
      s.nextVar ≤ y.id ∧ y.id ≤ s.nextVar + 1 := by
    rw [first]
    rintro y (same | rfl)
    · simp [List.mem_singleton.1 same]
    · simp
  refine ⟨s', found, fresh.trans uses fun y old there => ?_, uses.counts, firstValue, restValue,
    fun i later within => ?_⟩
  · have new := used y there
    omega
  · refine uses.walkStar_var (allocated i within) (tidy.free_of_le (Nat.le_add_right _ i))
      fun there => ?_
    have early : s.nextVar + i ≤ s.nextVar + 1 := (used _ there).2
    omega

/-- A list that is not known to be empty is taken apart by an equation with two fresh variables. -/
theorem exists_opens {items : Option (List Value)} (shows : s.Shows u (items.map Value.list))
    (occupied : items ≠ some []) :
    ∃ s', (s.freshVars count).2.unify u (.pair (.var ⟨s.nextVar⟩) (.var ⟨s.nextVar + 1⟩)) =
        .singleton s' ∧ s.Opens u count items s' := by
  match items with
  | none =>
    -- The two cases in which the list is not known to be empty.
    obtain ⟨x, unknown⟩ := shows
    exact exists_opens_of_unknown tidy below enough unknown
  | some [] => exact absurd rfl occupied
  | some (item :: items) => exact exists_opens_of_known tidy below enough shows

end Opening

/-- Something unknown is asked about a known list. -/
structure Inquires (s : State) (u l : Term Var) (x : Var) (items : List Value) : Prop where
  tidy : s.Tidy
  inside : u.Below s.nextVar
  inList : l.Below s.nextVar
  unknown : s.walkStar u = .var x
  list : s.walkStar l = (Value.list items).term

namespace Inquires

variable {l : Term Var} {item : Value} {items : List Value}

/-- The variable that is asked for has been allocated. -/
theorem allocated (asks : s.Inquires u l x items) : x.id < s.nextVar := by
  -- It occurs in what the term stands for, and only allocated variables do.
  have occurs : x ∈ (s.walkStar u).vars := by
    rw [asks.unknown]
    exact List.mem_singleton.2 rfl
  exact asks.tidy.allocated.walkStar asks.inside x occurs

/-- Taking the list apart tells nothing of what is asked for, and uses no variable that was there. -/
theorem exists_opens {count : Nat} (asks : s.Inquires u l x (item :: items)) (enough : 2 ≤ count) :
    ∃ s', (s.freshVars count).2.unify l (.pair (.var ⟨s.nextVar⟩) (.var ⟨s.nextVar + 1⟩)) =
        .singleton s' ∧
      s.Opens l count (some (item :: items)) s' ∧ s.Uses (· = x) s' ∧ s'.walkStar u = .var x := by
  obtain ⟨s', opened, opens⟩ := exists_opens_of_known asks.tidy asks.inList enough asks.list
  -- No variable is left in a list that is known.
  have closed : ∀ y, y ∉ (s.walkStar l).vars := by
    rw [asks.list, Value.vars_term]
    exact fun _ => List.not_mem_nil
  refine ⟨s', opened, opens, opens.toUses.mono fun y _ occurs => absurd occurs (closed y), ?_⟩
  exact (opens.walkStar_eq asks.tidy asks.inside fun y _ => closed y).trans asks.unknown

end Inquires

/-- At the start of a run, its only variable may be asked about any list of values. -/
theorem inquires_start (items : List Value) :
    (State.empty.freshVars 1).2.Inquires (.var ⟨0⟩) (Value.list items).term ⟨0⟩ items :=
  -- Nothing is bound when a run starts, and values have no variables.
  ⟨tidy_start 1, by decide, Value.below_term _ _, walkStar_start 1 _, Value.walkStar_term _ _⟩

/-- Only the variable in question was used for what is now known of an unknown. -/
theorem Uses.learns (uses : s.Uses (· = x) s') (unknown : s.walkStar u = .var x)
    (stands : s'.walkStar u = value) : s.Learns u value s' := by
  refine ⟨uses.mono fun y _ same => ?_, stands⟩
  -- The variable is the one that the unknown stands for.
  rw [unknown, same]
  exact List.mem_singleton.2 rfl

/-- A later state says something of a term, and no variable was used for it but those of the term. -/
structure Builds (s : State) (u : Term Var) (later : State) (answer : Answer) : Prop
    extends Uses s (· ∈ (s.walkStar u).vars) later where
  answered : later.reify u = answer

/-- A term that has learned something says what there is to say about it. -/
theorem Learns.builds {later : State} (learns : s.Learns u value later) :
    s.Builds u later (.ofTerm value) :=
  ⟨learns.toUses, congrArg Answer.ofTerm learns.value⟩

/--
An unknown list that has been taken apart has an unknown item in front of what its rest is said to be.

This needs that the variable for its first item has not been used.
-/
theorem Opens.builds {later : State} {count : Nat} {answer : Answer}
    (opens : s.Opens u count none s') (enough : 1 ≤ count)
    (opened : (s.freshVars count).2.unify u (.pair (.var ⟨s.nextVar⟩) (.var ⟨s.nextVar + 1⟩)) =
      .singleton s')
    (uses : s'.Uses (s.nextVar < ·.id) later)
    (answered : later.reify (.var ⟨s.nextVar + 1⟩) = answer) :
    s.Builds u later (Answer.unknown.cons answer) := by
  have learns := opens.learns opened (uses.mono fun y _ => Nat.le_of_lt)
  -- The first item stood for a variable that nothing was found out about.
  have below : (Term.var ⟨s.nextVar⟩).Below s'.nextVar := opens.below_new (i := 0) enough
  have unused : ∀ y ∈ (s'.walkStar (.var ⟨s.nextVar⟩)).vars, ¬ s.nextVar < y.id := by
    intro y occurs
    rw [opens.eq_of_mem_first occurs]
    exact Nat.lt_irrefl _
  have first : later.walkStar (.var ⟨s.nextVar⟩) = .var ⟨s.nextVar⟩ :=
    (uses.walkStar_eq opens.tidy below unused).trans opens.first
  rw [first] at learns
  rw [← answered]
  exact learns.builds

end Relational.State
