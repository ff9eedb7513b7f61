import Relational.Proofs.Goal.Starting
import Relational.Proofs.State.Matching

/-! Membership: the items of a known list in their order, and the open lists that have a known item. -/

namespace Relational

/-- The items that agree with what is known of the one in question. -/
def agreeing (known : Option Value) (items : List Value) : List Value :=
  items.filter fun item => ∀ k ∈ known, k = item

/-- Without anything known, every item agrees. -/
theorem agreeing_none (items : List Value) : agreeing none items = items := by
  simp [agreeing]

/-- As many items agree with a known one as are equal to it. -/
theorem length_agreeing_some (item : Value) (items : List Value) :
    (agreeing (some item) items).length = items.count item := by
  -- The two conditions differ in which side the known item is on.
  simp [agreeing, List.count_eq_length_filter, beq_eq_decide, eq_comm]

/-- What is said of a list of which only one item is known, behind some others that are not. -/
def openList (item : Value) (before : Nat) : Answer :=
  .improper (List.replicate before .unknown ++ [item.answer]) .unknown

/-- One more unknown item in front moves the known one by one place. -/
theorem cons_openList (item : Value) (before : Nat) :
    Answer.unknown.cons (openList item before) = openList item (before + 1) := by
  -- The answer is an improper list already, so the new item only goes to its front.
  simp [openList, Answer.cons, List.replicate_succ]

namespace State

variable {s : State} {x l : Term Var} {known : Option Value} {items : List Value}

/-- The relation is asked for an item of a known list. -/
structure AsksItem (s : State) (x l : Term Var) (known : Option Value) (items : List Value) :
    Prop where
  tidy : s.Tidy
  inItem : x.Below s.nextVar
  inList : l.Below s.nextVar
  item : s.Shows x known
  list : s.walkStar l = (Value.list items).term

/-- The list is taken apart, and the same item may be in the rest of it. -/
theorem AsksItem.exists_step {item : Value} (asks : s.AsksItem x l known (item :: items)) :
    ∃ s₁, (s.freshVars 2).2.unify l (.pair (.var ⟨s.nextVar⟩) (.var ⟨s.nextVar + 1⟩)) =
        .singleton s₁ ∧
      (Term.var ⟨s.nextVar⟩).Below s₁.nextVar ∧ s₁.walkStar (.var ⟨s.nextVar⟩) = item.term ∧
      s₁.AsksItem x (.var ⟨s.nextVar + 1⟩) known items := by
  obtain ⟨s₁, opened, opens⟩ :=
    exists_opens_of_known asks.tidy asks.inList (Nat.le_refl 2) asks.list
  -- The list is known, so nothing that is asked for was used to take it apart.
  have unused : ∀ y ∈ (s.walkStar x).vars, y ∉ (s.walkStar l).vars := by
    intro y _ occurs
    rw [asks.list, Value.vars_term] at occurs
    cases occurs
  refine ⟨s₁, opened, opens.below_new (i := 0) (by omega), opens.first, opens.tidy, ?_, ?_, ?_, ?_⟩
  · exact asks.inItem.mono opens.counts
  · exact opens.below_new (by omega)
  · exact opens.toUses.shows asks.tidy asks.inItem asks.item unused
  · exact opens.rest

end State

namespace Member

open Goal Program

variable {p : Program} {s s₁ s₂ : State} {x l : Term Var} {found others : List State}
  {known : Option Value} {items : List Value}

/-- The goals about a list with a first item: the item in question is that one, or in the rest. -/
abbrev goals : List Goal :=
  [.eq (named "l") (.pair (named "head") (named "tail")),
    disj [.eq (named "x") (named "head"), membero (named "x") (named "tail")]]

/-- What the names in the goals stand for. -/
abbrev env (s : State) (x l : Term Var) : Env :=
  (Env.extend [] ["x", "l"] [x, l]).extend ["head", "tail"] (s.freshVars 2).1

/-- A list that cannot be taken apart has no items. -/
theorem decides_of_closed (p : Program)
    (closed : (s.freshVars 2).2.unify l (.pair (.var ⟨s.nextVar⟩) (.var ⟨s.nextVar + 1⟩)) = .empty) :
    p.Decides (.list .member) [x, l] s [] :=
  -- The first equation of the body fails, and the comparison behind it is not looked at.
  decides_body (g := .freshAll ["head", "tail"] goals) rfl (.fresh (finishes_conj_of_apart closed))

/-- A list that is taken apart leads to one state, in which its first item and its rest have names. -/
theorem finishes_opened (p : Program)
    (opened : (s.freshVars 2).2.unify l (.pair (.var ⟨s.nextVar⟩) (.var ⟨s.nextVar + 1⟩)) =
      .singleton s₁) :
    p.Finishes (.conj [.eq (named "l") (.pair (named "head") (named "tail"))]) (env s x l)
      (s.freshVars 2).2 [s₁] 1 :=
  -- The names of the body stand for the list and for the two fresh variables.
  finishes_conj_one opened

/-- Equations that lead to some states here, and what the relation decides behind them. -/
theorem decides_of_opened
    (opened : (s.freshVars 2).2.unify l (.pair (.var ⟨s.nextVar⟩) (.var ⟨s.nextVar + 1⟩)) =
      .singleton s₁)
    (here : p.Finishes (.eq (named "x") (named "head")) (env s x l) s₁ found 0)
    (behind : p.Decides (.list .member) [x, .var ⟨s.nextVar + 1⟩] s₁ others) :
    p.Decides (.list .member) [x, l] s (found ++ others) := by
  obtain ⟨n, rest⟩ : ∃ n, p.Finishes (membero (named "x") (named "tail")) (env s x l) s₁ others n :=
    behind
  -- The comparison with the first item is settled before the rest is looked at.
  exact decides_body (g := .freshAll ["head", "tail"] goals) rfl
    (.fresh ((finishes_opened p opened).conj_snoc (here.disj_pair rest .none)))

/-- A first item that can be the one in question comes before what the relation offers behind it. -/
theorem offers_of_opened
    (opened : (s.freshVars 2).2.unify l (.pair (.var ⟨s.nextVar⟩) (.var ⟨s.nextVar + 1⟩)) =
      .singleton s₁)
    (met : s₁.unify x (.var ⟨s.nextVar⟩) = .singleton s₂)
    (behind : p.Offers (.list .member) [x, .var ⟨s.nextVar + 1⟩] s₁ others) :
    p.Offers (.list .member) [x, l] s (s₂ :: others) := by
  -- The comparison is the first of two alternatives, and so its state comes before all others.
  have here : p.Finishes (.eq (named "x") (named "head")) (env s x l) s₁ [s₂] 0 := finishes_eq met
  have rest : p.Starts (membero (named "x") (named "tail")) (env s x l) s₁ others := behind
  exact offers_body (g := .freshAll ["head", "tail"] goals) rfl
    ((finishes_opened p opened).conj_starts (here.disj_starts rest .none))

/-- The comparison with a first item leads to one state if it agrees, and to none if it does not. -/
theorem exists_finishes_head (p : Program) {item : Value} {t : Term Var}
    (asks : s₁.AsksItem x t known items) (below : (Term.var ⟨s.nextVar⟩).Below s₁.nextVar)
    (first : s₁.walkStar (.var ⟨s.nextVar⟩) = item.term) (l : Term Var) :
    ∃ found, p.Finishes (.eq (named "x") (named "head")) (env s x l) s₁ found 0 ∧
      List.Forall₂ (fun later w => later.walkStar x = w.term) found (agreeing known [item]) := by
  by_cases agrees : ∀ k ∈ known, k = item
  · -- The item learns what stands in the first place, or agrees with it.
    obtain ⟨s', met, learns⟩ :=
      State.unify_agrees asks.tidy asks.item agrees first asks.inItem below
    refine ⟨[s'], finishes_eq met, ?_⟩
    rw [agreeing, List.filter_cons_of_pos (by simpa using agrees)]
    exact .cons learns.value .nil
  · -- Another item is known, so the equation fails.
    obtain ⟨k, shown, different⟩ : ∃ k ∈ known, k ≠ item := by simpa using agrees
    have stands : s₁.walkStar x = k.term := by
      have shows := asks.item
      rw [Option.mem_def.1 shown] at shows
      exact shows
    refine ⟨[], finishes_eq_nil (State.unify_differs asks.tidy stands first different), ?_⟩
    rw [agreeing, List.filter_cons_of_neg (by simpa using agrees)]
    exact .nil

/--
A known list is gone through in its order, with one state for every item that agrees.

The induction is on the list: its first item is compared, and the rest is gone through behind it.
-/
theorem exists_decides_items (p : Program) (asks : s.AsksItem x l known items) :
    ∃ found, p.Decides (.list .member) [x, l] s found ∧
      List.Forall₂ (fun later w => later.walkStar x = w.term) found (agreeing known items) := by
  induction items generalizing s l with
  | nil =>
    -- An empty list is no pair.
    exact ⟨[], decides_of_closed p (State.unify_unit_pair asks.tidy.acyclic asks.list), .nil⟩
  | cons item items ih =>
    obtain ⟨s₁, opened, below, first, next⟩ := asks.exists_step
    obtain ⟨found, here, same⟩ := exists_finishes_head p next below first l
    obtain ⟨others, behind, sameBehind⟩ := ih next
    refine ⟨_, decides_of_opened opened here behind, ?_⟩
    -- What agrees in the list agrees in its first item or in the others.
    have both : agreeing known (item :: items) =
        agreeing known [item] ++ agreeing known items := by
      rw [agreeing, ← List.singleton_append, List.filter_append]
      rfl
    rw [both]
    exact List.rel_append same sameBehind

/--
An unknown list is given a known item at one place after the other.

The induction is on how many lists are wanted. Behind the first of them the search goes on with an
unknown item in front, which nothing is ever found out about.
-/
theorem exists_offers_openLists (p : Program) {item : Value} (count : Nat) (tidy : s.Tidy)
    (inItem : x.Below s.nextVar) (inList : l.Below s.nextVar) (stands : s.walkStar x = item.term)
    (unknown : s.Shows l none) :
    ∃ found, p.Offers (.list .member) [x, l] s found ∧
      List.Forall₂ (s.Builds l) found ((List.range count).map (openList item)) := by
  induction count generalizing s l with
  | zero => exact ⟨[], .none, .nil⟩
  | succ count ih =>
    -- The unknown list becomes a pair of two fresh variables.
    obtain ⟨y, free⟩ := unknown
    obtain ⟨s₁, opened, opens⟩ :=
      State.exists_opens_of_unknown tidy inList (Nat.le_refl 2) free
    have known : s₁.walkStar x = item.term := opens.walkStar_value stands
    have headBelow := opens.below_new (i := 0) (by omega)
    have tailBelow := opens.below_new (i := 1) (by omega)
    -- The item goes to the first place, and the rest of the list stays unknown.
    have head : s₁.Shows (.var ⟨s.nextVar⟩) none := State.shows_of_walkStar_eq opens.first
    obtain ⟨s₂, met, learns⟩ := State.unify_agrees_right opens.tidy head nofun known headBelow
      (inItem.mono opens.counts)
    have uses : s₁.Uses (· = ⟨s.nextVar⟩) s₂ := learns.uses_var opens.first
    have tail : s₂.walkStar (.var ⟨s.nextVar + 1⟩) = .var ⟨s.nextVar + 1⟩ :=
      uses.walkStar_unknown opens.tidy tailBelow opens.rest (by simp)
    have usesHead : s₁.Uses (s.nextVar ≤ ·.id) s₂ := uses.mono fun z _ same => by rw [same]
    -- What the list stands for now is the item with an unknown rest.
    have here := (opens.learns opened usesHead).builds
    rw [learns.value, tail] at here
    -- Or the item is in the rest of the list, and the first place stays unknown.
    obtain ⟨others, behind, builds⟩ := ih opens.tidy (inItem.mono opens.counts) tailBelow known
      ⟨_, opens.rest⟩
    refine ⟨s₂ :: others, offers_of_opened opened met behind, ?_⟩
    rw [List.range_succ_eq_map, List.map_cons, List.map_map]
    refine .cons here ?_
    rw [List.forall₂_map_right_iff] at builds ⊢
    refine builds.imp fun later i later_builds => ?_
    -- Whatever is found behind uses later variables only, so the first place is left alone.
    have usesTail : s₁.Uses (s.nextVar < ·.id) later := by
      refine later_builds.toUses.mono fun z _ occurs => ?_
      rw [opens.eq_of_mem_rest occurs]
      exact Nat.lt_succ_self _
    rw [Function.comp, ← cons_openList]
    exact opens.builds (by omega) opened usesTail later_builds.answered

/-- A run for the items of a list has one row for each of them, in their order. -/
theorem runsTo_membero_items (p : Program) (items : List Value) :
    p.RunsTo ["q"] (membero (named "q") (.list (items.map Value.term)))
      (items.map fun item => [item.answer]) := by
  have asks : (State.empty.freshVars 1).2.AsksItem (.var ⟨0⟩) (Value.list items).term none items :=
    ⟨State.tidy_start 1, by decide, Value.below_term _ _, ⟨_, State.walkStar_start 1 _⟩,
      Value.walkStar_term _ _⟩
  -- Nothing is known of the item, so all items of the list agree with it.
  obtain ⟨found, decides, same⟩ := exists_decides_items p asks
  rw [agreeing_none] at same
  -- States and items come in the same order, and each state says what its item is.
  have rows : found.map (·.reifyAll (State.empty.freshVars 1).1) =
      items.map fun item => [item.answer] := by
    refine rows_eq (same.imp fun later item stands => ?_)
    show [later.reify (.var ⟨0⟩)] = _
    rw [State.reify, stands, Value.answer]
  rw [← rows, ← Value.term_list]
  refine decides.runsTo ["q"] ?_
  simp only [List.map_cons, List.map_nil, Value.instantiate_term]
  rfl

/-- A run that compares an item with those of a list has as many rows as it is found there. -/
theorem runsTo_membero_item (p : Program) (item : Value) (items : List Value) :
    p.RunsTo [] (membero item.term (.list (items.map Value.term)))
      (List.replicate (items.count item) []) := by
  have asks : (State.empty.freshVars 0).2.AsksItem item.term (Value.list items).term (some item)
      items :=
    ⟨State.tidy_start 0, Value.below_term _ _, Value.below_term _ _, Value.walkStar_term _ _,
      Value.walkStar_term _ _⟩
  obtain ⟨found, decides, same⟩ := exists_decides_items p asks
  -- No variable is tracked, so all that a row says is that there is one.
  have rows : found.map (·.reifyAll (State.empty.freshVars 0).1) =
      List.replicate (items.count item) [] := by
    rw [← length_agreeing_some, ← same.length_eq]
    exact List.map_const
  rw [← rows, ← Value.term_list]
  refine decides.runsTo [] ?_
  simp only [List.map_cons, List.map_nil, Value.instantiate_term]

/-- A run for lists with a known item has one row for each of its places, nearer ones first. -/
theorem runsFirst_membero_lists (p : Program) (item : Value) (count : Nat) :
    p.RunsFirst count ["q"] (membero item.term (named "q"))
      ((List.range count).map fun before => [openList item before]) := by
  obtain ⟨found, offers, builds⟩ := exists_offers_openLists p count (State.tidy_start 1)
    (Value.below_term item _) (by decide : (Term.var ⟨0⟩).Below 1) (Value.walkStar_term _ _)
    ⟨_, State.walkStar_start 1 _⟩
  -- What each list says is read off the state that was found for it.
  have rows : found.map (·.reifyAll (State.empty.freshVars 1).1) =
      (List.range count).map fun before => [openList item before] := by
    refine rows_eq ((List.forall₂_map_right_iff.1 builds).imp fun later before known => ?_)
    exact congrArg (fun answer => [answer]) known.answered
  -- As many states are found as lists are wanted.
  have length : found.length = count := by
    simpa using builds.length_eq
  rw [← rows]
  nth_rewrite 1 [← length]
  refine offers.runsFirst ["q"] ?_
  simp only [List.map_cons, List.map_nil, Value.instantiate_term]
  rfl

/--
The relation goes through the items of a list, or through the lists that have an item.

Asked for the items of a known list, it gives all of them in their order, and asked about one item, a
row for each place it has in the list; both searches come to an end. Asked for a list with a known item
it never runs out of them: any number of rows has that item behind none, one, two and so on unknown
ones, and an unknown rest behind it.
-/
theorem membero_enumerates (p : Program) (items : List Value) (item : Value) (count : Nat) :
    p.RunsTo ["q"] (membero (named "q") (.list (items.map Value.term)))
      (items.map fun item => [item.answer]) ∧
    p.RunsTo [] (membero item.term (.list (items.map Value.term)))
      (List.replicate (items.count item) []) ∧
    p.RunsFirst count ["q"] (membero item.term (named "q"))
      ((List.range count).map fun before =>
        [.improper (List.replicate before .unknown ++ [item.answer]) .unknown]) :=
  -- One run for each of the three questions.
  ⟨runsTo_membero_items p items, runsTo_membero_item p item items,
    runsFirst_membero_lists p item count⟩

end Member

end Relational
