import Relational.Proofs.Goal.Finishing
import Relational.Proofs.Relation.Splits
import Relational.Proofs.State.Matching

/-! Concatenation: the relation between two lists and the one they make together, in all its uses. -/

namespace Relational

namespace State

variable {s s₁ : State} {l t out : Term Var} {front back : Option (List Value)}
  {items : List Value}

/-- The relation is asked for the two parts of a known list, each of them a list or unknown. -/
structure AsksParts (s : State) (l t out : Term Var) (front back : Option (List Value))
    (items : List Value) : Prop where
  tidy : s.Tidy
  inFront : l.Below s.nextVar
  inBack : t.Below s.nextVar
  inWhole : out.Below s.nextVar
  front : s.Shows l (front.map Value.list)
  back : s.Shows t (back.map Value.list)
  -- What is learned about the front says nothing about the back.
  apart : (s.walkStar t).vars.Disjoint (s.walkStar l).vars
  whole : s.walkStar out = (Value.list items).term

/-- The relation is asked for the list that two known lists make together. -/
structure AsksWhole (s : State) (l t out : Term Var) (front back : List Value) (x : Var) :
    Prop where
  tidy : s.Tidy
  inFront : l.Below s.nextVar
  inBack : t.Below s.nextVar
  inWhole : out.Below s.nextVar
  front : s.walkStar l = (Value.list front).term
  back : s.walkStar t = (Value.list back).term
  whole : s.walkStar out = .var x

/-- A later state in which two terms stand for the two parts of a list. -/
structure Parts (s : State) (l t : Term Var) (later : State)
    (parts : List Value × List Value) : Prop where
  acyclic : later.bindings.Acyclic
  keeps : later.bindings.Extends s.bindings
  front : later.walkStar l = (Value.list parts.1).term
  back : later.walkStar t = (Value.list parts.2).term

/--
A known list is met by a front that has been taken apart.

The variable for the first item gets its item if nothing was known of it, a fresh one gets the rest of
the list, and the rest of the front is not touched.
-/
theorem Opens.exists_meets {item : Value} (opens : s.Opens l 3 front s₁)
    (whole : s₁.walkStar out = (Value.list (item :: items)).term) (below : out.Below s₁.nextVar)
    (agrees : ∀ k ∈ front.bind List.head?, k = item) :
    ∃ s₂, s₁.unify out (.pair (.var ⟨s.nextVar⟩) (.var ⟨s.nextVar + 2⟩)) = .singleton s₂ ∧
      s₁.Uses (s.nextVar ≤ ·.id) s₂ ∧ s₂.walkStar (.var ⟨s.nextVar⟩) = item.term ∧
      s₂.walkStar (.var ⟨s.nextVar + 2⟩) = (Value.list items).term ∧
      s₂.walkStar (.var ⟨s.nextVar + 1⟩) = s₁.walkStar (.var ⟨s.nextVar + 1⟩) := by
  have free := opens.third
  obtain ⟨s₂, met, uses, firstValue, restValue⟩ := unify_pair_agrees opens.tidy whole
    (shows_of_walkStar_eq opens.first) agrees free
    (fun occurs => by simpa using opens.eq_of_mem_first occurs) below
    (opens.below_new (i := 0) (by omega)) (opens.below_new (by omega))
  refine ⟨s₂, met, uses.mono fun y _ used => ?_, firstValue, restValue, ?_⟩
  · -- Both variables that may have been used are fresh ones.
    rcases used with occurs | rfl
    · rw [opens.eq_of_mem_first occurs]
    · exact Nat.le_add_right _ 2
  · -- Neither of them is the one for the rest of the front.
    refine uses.walkStar_eq opens.tidy (opens.below_new (by omega)) fun y occurs used => ?_
    obtain rfl := opens.eq_of_mem_rest occurs
    rcases used with inFirst | same
    · simpa using opens.eq_of_mem_first inFirst
    · simp at same

/--
The first item of the whole list goes to the front, and the rest of the list is still to be split.

Whatever the rest is split into, the item stands in front of its front.
-/
theorem AsksParts.exists_step {item : Value}
    (asks : s.AsksParts l t out front back (item :: items)) (occupied : front ≠ some [])
    (agrees : ∀ k ∈ front.bind List.head?, k = item) :
    ∃ s₁ s₂, (s.freshVars 3).2.unify l (.pair (.var ⟨s.nextVar⟩) (.var ⟨s.nextVar + 1⟩)) =
        .singleton s₁ ∧
      s₁.unify out (.pair (.var ⟨s.nextVar⟩) (.var ⟨s.nextVar + 2⟩)) = .singleton s₂ ∧
      s₂.AsksParts (.var ⟨s.nextVar + 1⟩) t (.var ⟨s.nextVar + 2⟩) (front.map List.tail) back
        items ∧
      ∀ later parts, s₂.Parts (.var ⟨s.nextVar + 1⟩) t later parts →
        s.Parts l t later (item :: parts.1, parts.2) := by
  -- The front is taken apart by two of the fresh variables, and the whole list by the first and the third.
  obtain ⟨s₁, opened, opens⟩ :=
    exists_opens asks.tidy asks.inFront (Nat.le_succ 2) asks.front occupied
  obtain ⟨s₂, met, uses, first, whole, stays⟩ := opens.exists_meets
    (opens.walkStar_value asks.whole) (asks.inWhole.mono opens.counts) agrees
  -- Of the variables that were there before, only those of the front were used.
  have total : s.Uses (· ∈ (s.walkStar l).vars) s₂ :=
    opens.toUses.trans uses fun y old new => absurd old (Nat.not_lt.2 new)
  have unused : ∀ y ∈ (s.walkStar t).vars, y ∉ (s.walkStar l).vars :=
    fun y occurs => asks.apart occurs
  refine ⟨s₁, s₂, opened, met, ?_, fun later parts known => ?_⟩
  · refine ⟨uses.tidy, (opens.below_new (by omega)).mono uses.counts,
      asks.inBack.mono total.counts, (opens.below_new (by omega)).mono uses.counts,
      shows_of_walkStar_eq (stays.trans opens.rest),
      total.shows asks.tidy asks.inBack asks.back unused, ?_, whole⟩
    -- The back has old variables only, and the rest of the front a fresh one at most.
    rw [total.walkStar_eq asks.tidy asks.inBack unused, stays]
    intro y inBack inRest
    rw [opens.eq_of_mem_rest inRest] at inBack
    exact asks.tidy.not_mem_of_le asks.inBack (Nat.le_add_right _ 1) inBack
  · -- In every later state the front stands for the pair that it was unified with.
    have value := walkStar_eq_of_unify opened known.acyclic (known.keeps.trans uses.keeps)
    refine ⟨known.acyclic, known.keeps.trans total.keeps, ?_, known.back⟩
    rw [value, walkStar, Substitution.walkStar_pair]
    exact congrArg₂ Term.pair (walkStar_value_of_keeps known.acyclic known.keeps first) known.front

/-- An unknown list becomes the pair of a known first item and a fresh variable. -/
theorem Opens.exists_joins {item : Value} {front : List Value} {x : Var}
    (opens : s.Opens l 3 (some (item :: front)) s₁) (unknown : s₁.walkStar out = .var x)
    (old : x.id < s.nextVar) (below : out.Below s₁.nextVar) :
    ∃ s₂, s₁.unify out (.pair (.var ⟨s.nextVar⟩) (.var ⟨s.nextVar + 2⟩)) = .singleton s₂ ∧
      s₁.Uses (· = x) s₂ ∧ s₂.walkStar (.var ⟨s.nextVar + 2⟩) = .var ⟨s.nextVar + 2⟩ := by
  -- The first item is a value, and the third variable is free and newer than the unknown.
  have fresh := opens.third
  have parts : s₁.walkStar (.pair (.var ⟨s.nextVar⟩) (.var ⟨s.nextVar + 2⟩)) =
      .pair item.term (.var ⟨s.nextVar + 2⟩) := by
    rw [walkStar, Substitution.walkStar_pair]
    exact congrArg₂ Term.pair opens.first fresh
  have different : (⟨s.nextVar + 2⟩ : Var) ≠ x := (Var.ne_later old 2).symm
  have absent : x ∉ (s₁.walkStar (.pair (.var ⟨s.nextVar⟩) (.var ⟨s.nextVar + 2⟩))).vars := by
    rw [parts, Term.vars, Value.vars_term, List.nil_append]
    exact fun occurs => different (List.mem_singleton.1 occurs).symm
  have inside : (Term.pair (.var ⟨s.nextVar⟩) (.var ⟨s.nextVar + 2⟩)).Below s₁.nextVar :=
    Term.below_pair_iff.2 ⟨opens.below_new (i := 0) (by omega), opens.below_new (by omega)⟩
  obtain ⟨s₂, met, learns⟩ := unify_learns opens.tidy unknown below inside
    (fun y same => by cases parts.symm.trans same) absent
  have uses : s₁.Uses (· = x) s₂ := learns.uses_var unknown
  exact ⟨s₂, met, uses,
    uses.walkStar_unknown opens.tidy (opens.below_new (by omega)) fresh different⟩

/-- No variable is left in a front that is known. -/
theorem AsksWhole.not_mem_front {front back : List Value} {x : Var}
    (asks : s.AsksWhole l t out front back x) (y : Var) : y ∉ (s.walkStar l).vars := by
  -- The front stands for a value.
  rw [asks.front, Value.vars_term]
  exact List.not_mem_nil

/--
The first item of the front goes to the whole list, and the rest of the front is still to be joined.

Whatever list comes of the rest, the item stands in front of it.
-/
theorem AsksWhole.exists_step {item : Value} {front back rest : List Value} {x : Var}
    (asks : s.AsksWhole l t out (item :: front) back x) :
    ∃ s₁ s₂, (s.freshVars 3).2.unify l (.pair (.var ⟨s.nextVar⟩) (.var ⟨s.nextVar + 1⟩)) =
        .singleton s₁ ∧
      s₁.unify out (.pair (.var ⟨s.nextVar⟩) (.var ⟨s.nextVar + 2⟩)) = .singleton s₂ ∧
      s₂.AsksWhole (.var ⟨s.nextVar + 1⟩) t (.var ⟨s.nextVar + 2⟩) front back ⟨s.nextVar + 2⟩ ∧
      ∀ {later}, s₂.Learns (.var ⟨s.nextVar + 2⟩) (Value.list rest).term later →
        s.Learns out (Value.list (item :: rest)).term later := by
  -- Taking the front apart leaves the unknown as it is, which is then joined from item and rest.
  obtain ⟨s₁, opened, opens⟩ :=
    exists_opens_of_known asks.tidy asks.inFront (Nat.le_succ 2) asks.front
  have inOut : x ∈ (s.walkStar out).vars := by
    rw [asks.whole]
    exact List.mem_singleton.2 rfl
  -- The front is known, so no variable of it was used to take it apart.
  have opening : s.Uses (· ∈ (s.walkStar out).vars) s₁ :=
    opens.toUses.mono fun y _ occurs => absurd occurs (asks.not_mem_front y)
  have unknown : s₁.walkStar out = .var x :=
    (opens.walkStar_eq asks.tidy asks.inWhole fun y _ => asks.not_mem_front y).trans asks.whole
  obtain ⟨s₂, met, uses, still⟩ := opens.exists_joins unknown
    (asks.tidy.allocated.walkStar asks.inWhole x inOut) (asks.inWhole.mono opens.counts)
  refine ⟨s₁, s₂, opened, met, ⟨uses.tidy, (opens.below_new (by omega)).mono uses.counts,
    asks.inBack.mono (opens.counts.trans uses.counts),
    (opens.below_new (by omega)).mono uses.counts, uses.walkStar_value opens.rest,
    uses.walkStar_value (opens.walkStar_value asks.back), still⟩, fun {later} known => ⟨?_, ?_⟩⟩
  · -- Of the variables that were there before, only the one for the whole list was used.
    refine (opening.trans uses ?_).trans known.toUses fun y allocated occurs => ?_
    · rintro y _ rfl
      exact inOut
    · rw [still] at occurs
      rw [List.mem_singleton.1 occurs] at allocated
      simp only at allocated
      omega
  · have first : later.walkStar (.var ⟨s.nextVar⟩) = item.term :=
      known.walkStar_value (uses.walkStar_value opens.first)
    rw [walkStar_eq_of_unify met known.tidy.acyclic known.keeps, walkStar,
      Substitution.walkStar_pair]
    exact congrArg₂ Term.pair first known.value

end State

namespace Append

open Goal Program

variable {p : Program} {s s₁ s₂ : State} {l t out : Term Var} {found : List State}
  {front back : Option (List Value)} {items : List Value}

/-- The goals of an empty front. -/
abbrev endGoals : List Goal :=
  [.eq (named "l") .unit, .eq (named "t") (named "out")]

/-- The goals of a front with a first item: two equations, and the relation between what is left. -/
abbrev stepGoals : List Goal :=
  [.eq (named "l") (.pair (named "a") (named "d")),
    .eq (named "out") (.pair (named "a") (named "res")),
    appendo (named "d") (named "t") (named "res")]

/-- What the parameters of the relation stand for. -/
abbrev env (l t out : Term Var) : Env :=
  Env.extend [] ["l", "t", "out"] [l, t, out]

/-- The relation ends with the states of an empty front, and then with those of any other. -/
theorem decides_append {others : List State} {n : Nat}
    (base : p.Finishes (.conj endGoals) (env l t out) s found n) (early : n ≤ 2)
    (step : ∃ m, p.Finishes (.freshAll ["a", "d", "res"] stepGoals) (env l t out) s others m) :
    p.Decides (.list .append) [l, t, out] s (found ++ others) :=
  -- The first alternative is done within its two equations, and the second one waits for three goals.
  decides_cases rfl base (early.trans (Nat.le_succ 2)) step

/-- The split with an empty front is found at once, if it fits. -/
theorem exists_finishes_end (p : Program) (asks : s.AsksParts l t out front back items) :
    ∃ found n, p.Finishes (.conj endGoals) (env l t out) s found n ∧ n ≤ 2 ∧
      List.Forall₂ (s.Parts l t) found ([([], items)].filter (fitsBoth front back)) := by
  -- Both equations compare a list with one that is known: the empty one, and then the whole.
  have unit : s.walkStar .unit = (Value.list []).term := Value.walkStar_term _ .unit
  by_cases empty : Fits front []
  · -- The front learns that it is empty, and then the back has to be the whole list.
    obtain ⟨s₁, opened, learns⟩ := State.unify_agrees asks.tidy asks.front empty.eq_list unit
      asks.inFront (Value.below_term .unit _)
    have shown := learns.shows asks.tidy asks.inBack asks.back fun y occurs => asks.apart occurs
    have whole := learns.walkStar_value asks.whole
    by_cases all : Fits back items
    · obtain ⟨s₂, met, learnsBack⟩ := State.unify_agrees learns.tidy shown all.eq_list whole
        (asks.inBack.mono learns.counts) (asks.inWhole.mono learns.counts)
      refine ⟨[s₂], 2, finishes_conj_two opened met, Nat.le_refl 2, ?_⟩
      rw [List.filter_cons_of_pos (by simp [fitsBoth, empty, all])]
      refine .cons ⟨learnsBack.tidy.acyclic, learnsBack.keeps.trans learns.keeps, ?_,
        learnsBack.value⟩ .nil
      exact learnsBack.walkStar_value learns.value
    · -- Another back is known than the whole list, which is what an empty front leaves for it.
      obtain ⟨others, rfl, different⟩ := exists_of_not_fits all
      have apart := State.unify_differs learns.tidy shown whole different
      refine ⟨[], 2, finishes_conj_of_apart_second opened apart, Nat.le_refl 2, ?_⟩
      rw [List.filter_cons_of_neg (by simp [fitsBoth, all])]
      exact .nil
  · -- The front is known to have items, so the first equation fails.
    obtain ⟨others, rfl, different⟩ := exists_of_not_fits empty
    have occupied := State.unify_differs asks.tidy asks.front unit different
    refine ⟨[], 1, finishes_conj_of_apart occupied, Nat.le_succ 1, ?_⟩
    rw [List.filter_cons_of_neg (by simp [fitsBoth, empty])]
    exact .nil

/-- If the whole list has nothing in front of its end, no other split is found. -/
theorem exists_finishes_step_nil (p : Program) (asks : s.AsksParts l t out front back []) :
    ∃ n, p.Finishes (.freshAll ["a", "d", "res"] stepGoals) (env l t out) s [] n := by
  -- Either the front cannot be taken apart or, since it is empty, the whole list cannot.
  by_cases occupied : front = some []
  · subst occupied
    exact ⟨1, .fresh (finishes_conj_of_apart (State.unify_unit_pair asks.tidy.acyclic asks.front))⟩
  · obtain ⟨s₁, opened, opens⟩ :=
      State.exists_opens asks.tidy asks.inFront (Nat.le_succ 2) asks.front occupied
    exact ⟨2, .fresh (finishes_conj_of_apart_second opened
      (State.unify_unit_pair opens.tidy.acyclic (opens.walkStar_value asks.whole)))⟩

/-- If the front begins with another item than the whole list, no other split is found. -/
theorem exists_finishes_step_of_differs (p : Program) {item : Value}
    (asks : s.AsksParts l t out front back (item :: items))
    (differs : ¬ (front ≠ some [] ∧ ∀ k ∈ front.bind List.head?, k = item)) :
    ∃ n, p.Finishes (.freshAll ["a", "d", "res"] stepGoals) (env l t out) s [] n := by
  match front with
  | none => exact absurd ⟨nofun, nofun⟩ differs
  -- An empty front is no pair.
  | some [] => exact ⟨1, .fresh (finishes_conj_of_apart (State.unify_unit_pair asks.tidy.acyclic asks.front))⟩
  | some (other :: others) =>
    -- The whole list has another first item than the front, and this shows in the second equation.
    have different : other ≠ item := fun same => differs ⟨nofun, by simp [same]⟩
    obtain ⟨s₁, opened, opens⟩ :=
      State.exists_opens asks.tidy asks.inFront (Nat.le_succ 2) asks.front nofun
    exact ⟨2, .fresh (finishes_conj_of_apart_second opened (State.unify_pair_differs opens.tidy
      (opens.walkStar_value asks.whole) opens.first different (asks.inWhole.mono opens.counts)))⟩

/--
A known list is split in every way that fits what is known of its parts, shorter fronts first.

The induction is on the list: its first item goes to the front, and the rest of it is split behind.
-/
theorem exists_decides_splits (p : Program) (asks : s.AsksParts l t out front back items) :
    ∃ found, p.Decides (.list .append) [l, t, out] s found ∧
      List.Forall₂ (s.Parts l t) found (fitting front back items) := by
  induction items generalizing s l out front with
  | nil =>
    -- Only the empty front is left for an empty list.
    obtain ⟨found, n, base, early, parts⟩ := exists_finishes_end p asks
    exact ⟨_, decides_append base early (exists_finishes_step_nil p asks),
      by rwa [List.append_nil]⟩
  | cons item items ih =>
    obtain ⟨found, n, base, early, parts⟩ := exists_finishes_end p asks
    -- Whether there are splits behind the first item is decided by what is known of the front.
    rw [fitting_cons]
    split
    · rename_i agrees
      obtain ⟨s₁, s₂, opened, met, later, behind⟩ := asks.exists_step agrees.1 agrees.2
      obtain ⟨others, decides, split⟩ := ih later
      refine ⟨_, decides_append base early (exists_finishes_fresh_call rfl opened met decides),
        List.rel_append parts ?_⟩
      exact List.forall₂_map_right_iff.2 (split.imp behind)
    · rename_i differs
      have step := exists_finishes_step_of_differs p asks differs
      exact ⟨_, decides_append base early step, by rwa [List.append_nil, List.append_nil]⟩

/-- An empty front makes no difference to the back. -/
theorem exists_decides_whole_nil (p : Program) {back : List Value} {x : Var}
    (asks : s.AsksWhole l t out [] back x) :
    ∃ later, p.Decides (.list .append) [l, t, out] s [later] ∧
      s.Learns out (Value.list back).term later := by
  -- The first equation is met as it is, and the second one gives the back to the whole list.
  have unit : s.walkStar .unit = (Value.list []).term := Value.walkStar_term _ .unit
  have known : s.Shows l (some (.list [])) := asks.front
  obtain ⟨s₁, empty, learns⟩ := State.unify_agrees asks.tidy known (by simp) unit asks.inFront
    (Value.below_term .unit _)
  have same := learns.walkStar_eq asks.tidy asks.inWhole fun y _ => asks.not_mem_front y
  have unknown : s₁.Shows out none := ⟨x, same.trans asks.whole⟩
  obtain ⟨s₂, met, learnsWhole⟩ := State.unify_agrees_right learns.tidy unknown nofun
    (learns.walkStar_value asks.back) (asks.inWhole.mono learns.counts)
    (asks.inBack.mono learns.counts)
  -- The other clause asks for a pair in front, and there is none.
  have closed : p.Finishes (.freshAll ["a", "d", "res"] stepGoals) (env l t out) s [] 1 :=
    .fresh (finishes_conj_of_apart (State.unify_unit_pair asks.tidy.acyclic asks.front))
  refine ⟨s₂, decides_append (finishes_conj_two empty met) (Nat.le_refl 2) ⟨1, closed⟩, ?_,
    learnsWhole.value⟩
  -- The front was known to be empty, so nothing was used to find that out.
  have opening : s.Uses (· ∈ (s.walkStar out).vars) s₁ :=
    learns.toUses.mono fun y _ occurs => absurd occurs (asks.not_mem_front y)
  refine opening.trans learnsWhole.toUses ?_
  rw [same]
  exact fun y _ occurs => occurs

/--
Two known lists are joined to one, by the only state there is.

The induction is on the first list: each of its items is put in front of what the rest makes with the
second list, and all variables used on the way are fresh ones.
-/
theorem exists_decides_whole (p : Program) {front back : List Value} {x : Var}
    (asks : s.AsksWhole l t out front back x) :
    ∃ later, p.Decides (.list .append) [l, t, out] s [later] ∧
      s.Learns out (Value.list (front ++ back)).term later := by
  induction front generalizing s l out x with
  | nil => exact exists_decides_whole_nil p asks
  | cons item front ih =>
    obtain ⟨s₁, s₂, opened, met, next, behind⟩ := asks.exists_step
    obtain ⟨later, decides, learns⟩ := ih next
    -- A front with a first item is not empty, so nothing comes from the other alternative.
    have occupied := State.unify_nil_of_occupied asks.tidy asks.front
    exact ⟨later, decides_append (finishes_conj_of_apart occupied) (Nat.le_succ 1)
      (exists_finishes_fresh_call rfl opened met decides), behind learns⟩

/-- A run for the parts of a known list has one row for each split that fits. -/
theorem runsTo_splits {names : List String} {args : List (Term Name)}
    {row : List Value × List Value → Row}
    (asks : (State.empty.freshVars names.length).2.AsksParts l t out front back items)
    (stand : args.map (·.instantiate
      (Env.extend [] names (State.empty.freshVars names.length).1).term) = [l, t, out])
    (reads : ∀ later parts, (State.empty.freshVars names.length).2.Parts l t later parts →
      later.reifyAll (State.empty.freshVars names.length).1 = row parts) :
    p.RunsTo names (.call (.list .append) args) ((fitting front back items).map row) := by
  obtain ⟨found, decides, parts⟩ := exists_decides_splits p asks
  -- States and splits come in the same order, and each state says what its split says.
  have rows : found.map (·.reifyAll (State.empty.freshVars names.length).1) =
      (fitting front back items).map row :=
    rows_eq (parts.imp reads)
  exact rows ▸ decides.runsTo names stand

/-- A run for both parts of a list has one row for each split, shorter fronts first. -/
theorem runsTo_appendo_parts (p : Program) (whole : List Value) :
    p.RunsTo ["x", "y"] (appendo (named "x") (named "y") (.list (whole.map Value.term)))
      ((splits whole).map fun parts => [Value.answers parts.1, Value.answers parts.2]) := by
  have asks : (State.empty.freshVars 2).2.AsksParts (.var ⟨0⟩) (.var ⟨1⟩)
      (Value.list whole).term none none whole := by
    -- Both parts are the run's own variables, which are free and different.
    refine ⟨State.tidy_start 2, by decide, by decide, Value.below_term _ _, ⟨_, State.walkStar_start 2 _⟩,
      ⟨_, State.walkStar_start 2 _⟩, ?_, Value.walkStar_term _ _⟩
    rw [State.walkStar_start, State.walkStar_start]
    simp [Term.vars]
  rw [← Value.term_list, ← fitting_none]
  refine runsTo_splits asks ?_ fun later parts known => ?_
  · simp only [List.map_cons, List.map_nil, Value.instantiate_term]
    rfl
  · show [later.reify (.var ⟨0⟩), later.reify (.var ⟨1⟩)] = _
    rw [State.reify_eq_answers known.front, State.reify_eq_answers known.back]

/-- A run for the list that two lists make together has one row. -/
theorem runsTo_appendo_whole (p : Program) (front back : List Value) :
    p.RunsTo ["q"] (appendo (.list (front.map Value.term)) (.list (back.map Value.term)) (named "q"))
      [[Value.answers (front ++ back)]] := by
  have asks : (State.empty.freshVars 1).2.AsksWhole (Value.list front).term (Value.list back).term
      (.var ⟨0⟩) front back ⟨0⟩ :=
    -- Both parts are values, and the whole list is the run's own variable.
    ⟨State.tidy_start 1, Value.below_term _ _, Value.below_term _ _, by decide, Value.walkStar_term _ _,
      Value.walkStar_term _ _, State.walkStar_start 1 _⟩
  obtain ⟨later, decides, learns⟩ := exists_decides_whole p asks
  rw [← Value.term_list, ← Value.term_list]
  have row : later.reifyAll (State.empty.freshVars 1).1 = [Value.answers (front ++ back)] := by
    show [later.reify (.var ⟨0⟩)] = _
    rw [State.reify_eq_answers learns.value]
  rw [← row]
  refine decides.runsTo ["q"] ?_
  simp only [List.map_cons, List.map_nil, Value.instantiate_term]
  rfl

/-- A run for the front of a list has one row for each split with the given back. -/
theorem runsTo_appendo_front (p : Program) (back whole : List Value) :
    p.RunsTo ["x"]
      (appendo (named "x") (.list (back.map Value.term)) (.list (whole.map Value.term)))
      ((fitting none (some back) whole).map fun parts => [Value.answers parts.1]) := by
  have asks : (State.empty.freshVars 1).2.AsksParts (.var ⟨0⟩) (Value.list back).term
      (Value.list whole).term none (some back) whole := by
    refine ⟨State.tidy_start 1, by decide, Value.below_term _ _, Value.below_term _ _,
      ⟨_, State.walkStar_start 1 _⟩, Value.walkStar_term _ _, ?_, Value.walkStar_term _ _⟩
    -- There are no variables in the back that is given.
    rw [State.walkStar, Value.walkStar_term, Value.vars_term]
    exact List.disjoint_nil_left _
  rw [← Value.term_list, ← Value.term_list]
  refine runsTo_splits asks ?_ fun later parts known => ?_
  · simp only [List.map_cons, List.map_nil, Value.instantiate_term]
    rfl
  · show [later.reify (.var ⟨0⟩)] = _
    rw [State.reify_eq_answers known.front]

/-- A run for the back of a list has one row for each split with the given front. -/
theorem runsTo_appendo_back (p : Program) (front whole : List Value) :
    p.RunsTo ["y"]
      (appendo (.list (front.map Value.term)) (named "y") (.list (whole.map Value.term)))
      ((fitting (some front) none whole).map fun parts => [Value.answers parts.2]) := by
  have asks : (State.empty.freshVars 1).2.AsksParts (Value.list front).term (.var ⟨0⟩)
      (Value.list whole).term (some front) none whole := by
    refine ⟨State.tidy_start 1, Value.below_term _ _, by decide, Value.below_term _ _,
      Value.walkStar_term _ _, ⟨_, State.walkStar_start 1 _⟩, ?_, Value.walkStar_term _ _⟩
    -- There are no variables in the front that is given.
    rw [State.walkStar, State.walkStar, Value.walkStar_term, Value.vars_term]
    exact List.disjoint_nil_right _
  rw [← Value.term_list, ← Value.term_list]
  refine runsTo_splits asks ?_ fun later parts known => ?_
  · simp only [List.map_cons, List.map_nil, Value.instantiate_term]
    rfl
  · show [later.reify (.var ⟨0⟩)] = _
    rw [State.reify_eq_answers known.back]

/--
The relation is concatenation in every finite use.

Asked for both parts of a list, it gives all splits, shorter fronts first; asked for the whole list, the
one that the parts make; and asked for one part, the only one there is, or nothing. Each of these runs
comes to an end.
-/
theorem appendo_concatenates (p : Program) (front back whole : List Value) :
    p.RunsTo ["x", "y"] (appendo (named "x") (named "y") (.list (whole.map Value.term)))
      ((List.range (whole.length + 1)).map fun i =>
        [Value.answers (whole.take i), Value.answers (whole.drop i)]) ∧
    p.RunsTo ["q"] (appendo (.list (front.map Value.term)) (.list (back.map Value.term)) (named "q"))
      [[Value.answers (front ++ back)]] ∧
    ((∀ first, whole = first ++ back → p.RunsTo ["x"]
        (appendo (named "x") (.list (back.map Value.term)) (.list (whole.map Value.term)))
        [[Value.answers first]]) ∧
      ((∀ first, whole ≠ first ++ back) → p.RunsTo ["x"]
        (appendo (named "x") (.list (back.map Value.term)) (.list (whole.map Value.term))) [])) ∧
    (∀ rest, whole = front ++ rest → p.RunsTo ["y"]
        (appendo (.list (front.map Value.term)) (named "y") (.list (whole.map Value.term)))
        [[Value.answers rest]]) ∧
      ((∀ rest, whole ≠ front ++ rest) → p.RunsTo ["y"]
        (appendo (.list (front.map Value.term)) (named "y") (.list (whole.map Value.term))) []) := by
  have parts := runsTo_appendo_parts p whole
  have first := runsTo_appendo_front p back whole
  have rest := runsTo_appendo_back p front whole
  -- Each split is the cut after some number of items.
  rw [splits, List.map_map] at parts
  refine ⟨parts, runsTo_appendo_whole p front back, ⟨fun items joined => ?_, fun apart => ?_⟩,
    fun items joined => ?_, fun apart => ?_⟩
  · subst joined
    rwa [fitting_back] at first
  · -- A split that fits would have the given back behind some front.
    rwa [fitting_eq_nil fun parts joined fit => ?_] at first
    exact apart parts.1 (fitsBoth_back_iff.1 fit ▸ joined)
  · subst joined
    rwa [fitting_front] at rest
  · rwa [fitting_eq_nil fun parts joined fit => ?_] at rest
    exact apart parts.2 (fitsBoth_front_iff.1 fit ▸ joined)

/-- One to three are split in four ways; before a three there is one front, and before a four none. -/
theorem appendo_concatenates_three :
    Program.standard.RunsTo ["x", "y"]
      (appendo (named "x") (named "y") (.list [.int 1, .int 2, .int 3]))
      [[.nil, .list [.int 1, .int 2, .int 3]], [.list [.int 1], .list [.int 2, .int 3]],
        [.list [.int 1, .int 2], .list [.int 3]], [.list [.int 1, .int 2, .int 3], .nil]] ∧
    Program.standard.RunsTo ["q"]
      (appendo (.list [.int 1, .int 2]) (.list [.int 3]) (named "q"))
      [[.list [.int 1, .int 2, .int 3]]] ∧
    Program.standard.RunsTo ["x"]
      (appendo (named "x") (.list [.int 3]) (.list [.int 1, .int 2, .int 3]))
      [[.list [.int 1, .int 2]]] ∧
    Program.standard.RunsTo ["y"]
      (appendo (.list [.int 1, .int 2]) (named "y") (.list [.int 1, .int 2, .int 4]))
      [[.list [.int 4]]] ∧
    Program.standard.RunsTo ["x"]
      (appendo (named "x") (.list [.int 3]) (.list [.int 1, .int 2, .int 4])) [] := by
  have three := appendo_concatenates .standard [.int 1, .int 2] [.int 3] [.int 1, .int 2, .int 3]
  have four := appendo_concatenates .standard [.int 1, .int 2] [.int 3] [.int 1, .int 2, .int 4]
  refine ⟨three.1, three.2.1, three.2.2.1.1 [.int 1, .int 2] rfl, four.2.2.2.1 [.int 4] rfl,
    four.2.2.1.2 fun first joined => ?_⟩
  -- The last item of the whole would have to be that of the back.
  simpa using congrArg List.getLast? joined

end Append

end Relational
