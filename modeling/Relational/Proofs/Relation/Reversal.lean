import Relational.Demo.Lists
import Relational.Proofs.Relation.Concatenation

/-! Reversal: a known list is turned around by taking it apart, and joining it again from behind. -/

namespace Relational

namespace State

variable {s s₁ s₂ : State} {l out : Term Var} {x : Var} {item : Value} {items : List Value}

/-- Once the list is taken apart, the reverse of its rest is asked for under a name of its own. -/
theorem Opens.inquires (opens : s.Opens l 3 (some (item :: items)) s₁) :
    s₁.Inquires (.var ⟨s.nextVar + 2⟩) (.var ⟨s.nextVar + 1⟩) ⟨s.nextVar + 2⟩ items where
  -- The third fresh variable is free, and the rest is the list it is asked about.
  tidy := opens.tidy
  inside := opens.below_new (by omega)
  inList := opens.below_new (by omega)
  unknown := opens.third
  list := opens.rest

/--
Once the rest of the list is reversed, its first item is to be put behind that.

What is asked for is still unknown, since only a fresh variable has been used.
-/
theorem Opens.asksWhole {reversed : List Value} (opens : s.Opens l 3 (some (item :: items)) s₁)
    (old : x.id < s.nextVar) (below : out.Below s₁.nextVar) (unknown : s₁.walkStar out = .var x)
    (learns : s₁.Learns (.var ⟨s.nextVar + 2⟩) (Value.list reversed).term s₂) :
    s₂.AsksWhole (.var ⟨s.nextVar + 2⟩) (.pair (.var ⟨s.nextVar⟩) .unit) out reversed [item] x where
  tidy := learns.tidy
  inFront := (opens.below_new (by omega)).mono learns.counts
  inBack := Term.below_pair_iff.2 ⟨(opens.below_new (i := 0) (by omega)).mono learns.counts,
    Value.below_term .unit _⟩
  inWhole := below.mono learns.counts
  front := learns.value
  back := by
    rw [walkStar, Substitution.walkStar_pair]
    -- The first item, with nothing behind it, is the list that goes to the back.
    exact congrArg₂ Term.pair (learns.walkStar_value opens.first) (Value.walkStar_term _ .unit)
  whole := by
    -- The reverse of the rest was learned by a fresh variable only.
    have uses := learns.uses_var opens.inquires.unknown
    exact uses.walkStar_unknown opens.tidy below unknown (Var.ne_later old 2)

end State

namespace Reverse

open Goal Program

variable {p : Program} {s s₁ s₂ : State} {l out : Term Var} {found : List State} {x : Var}
  {items : List Value}

/-- The goals of an empty list. -/
abbrev endGoals : List Goal :=
  [.eq (named "l") .unit, .eq (named "out") .unit]

/-- The goals of a list with a first item: its rest is reversed, and the item put behind that. -/
abbrev stepGoals : List Goal :=
  [.eq (named "l") (.pair (named "head") (named "tail")),
    Demo.reverso (named "tail") (named "rev"),
    appendo (named "rev") (.list [named "head"]) (named "out")]

/-- What the parameters of the relation stand for. -/
abbrev env (l out : Term Var) : Env :=
  Env.extend [] ["l", "out"] [l, out]

/-- What names stand for once there are fresh variables for a first item. -/
abbrev stepEnv (s : State) (l out : Term Var) : Env :=
  (env l out).extend ["head", "tail", "rev"] (s.freshVars 3).1

/-- A first item leads to what is found when it is put behind the reversed rest. -/
theorem exists_finishes_step
    (opened : (s.freshVars 3).2.unify l (.pair (.var ⟨s.nextVar⟩) (.var ⟨s.nextVar + 1⟩)) =
      .singleton s₁)
    (reverses : p.Decides (.named "reverso") [.var ⟨s.nextVar + 1⟩, .var ⟨s.nextVar + 2⟩] s₁ [s₂])
    (joins : p.Decides (.list .append)
      [.var ⟨s.nextVar + 2⟩, .pair (.var ⟨s.nextVar⟩) .unit, out] s₂ found) :
    ∃ m, p.Finishes (.freshAll ["head", "tail", "rev"] stepGoals) (env l out) s found m := by
  have first : p.Finishes (.conj [.eq (named "l") (.pair (named "head") (named "tail"))])
      (stepEnv s l out) (s.freshVars 3).2 [s₁] 1 := finishes_conj_one opened
  -- Both relations come to an end, the second one in the only state that the first one leads to.
  obtain ⟨_, recursive⟩ : ∃ n, p.Finishes (Demo.reverso (named "tail") (named "rev"))
    (stepEnv s l out) s₁ [s₂] n := reverses
  obtain ⟨_, last⟩ : ∃ n, p.Finishes (appendo (named "rev") (.list [named "head"]) (named "out"))
    (stepEnv s l out) s₂ found n := joins
  exact ⟨_, .fresh ((first.conj_snoc recursive).conj_snoc last)⟩

/-- An empty list is its own reverse. -/
theorem exists_decides_nil (defined : p.definition? (.named "reverso") = some Demo.reversal)
    (asks : s.Inquires out l x []) :
    ∃ later, p.Decides (.named "reverso") [l, out] s [later] ∧
      s.Learns out (Value.list []).term later := by
  have empty := State.unify_nil asks.tidy.acyclic asks.list
  have unknown : s.Shows out none := ⟨x, asks.unknown⟩
  obtain ⟨later, met, learns⟩ := State.unify_agrees (w := .unit) asks.tidy unknown nofun
    (Value.walkStar_term _ _) asks.inside (Value.below_term _ _)
  -- An empty list cannot be taken apart, so nothing comes from the other alternative.
  have closed : p.Finishes (.freshAll ["head", "tail", "rev"] stepGoals) (env l out) s [] 1 :=
    .fresh (finishes_conj_of_apart (State.unify_unit_pair asks.tidy.acyclic asks.list))
  have base : p.Finishes (.conj endGoals) (env l out) s [later] 2 := finishes_conj_two empty met
  exact ⟨later, decides_cases defined base (by decide) ⟨1, closed⟩, learns⟩

/--
A known list is reversed, which leads to the only state there is.

The induction is on the list. The rest of it is reversed before its first item is put behind that, and
by then the concatenation is asked about two lists that are known.
-/
theorem exists_decides_reverse (defined : p.definition? (.named "reverso") = some Demo.reversal)
    (asks : s.Inquires out l x items) :
    ∃ later, p.Decides (.named "reverso") [l, out] s [later] ∧
      s.Learns out (Value.list items.reverse).term later := by
  induction items generalizing s l out x with
  -- The reverse of an empty list is found by the first clause.
  | nil => exact exists_decides_nil defined asks
  | cons item items ih =>
    obtain ⟨s₁, opened, opens, opening, unknown⟩ := asks.exists_opens (Nat.le_succ 2)
    obtain ⟨s₂, reverses, learns⟩ := ih opens.inquires
    have whole := opens.asksWhole asks.allocated (asks.inside.mono opens.counts) unknown learns
    obtain ⟨later, joins, joined⟩ := Append.exists_decides_whole p whole
    -- The list has an item, so the first clause fails.
    have base : p.Finishes (.conj endGoals) (env l out) s [] 1 :=
      finishes_conj_of_apart (State.unify_nil_of_occupied asks.tidy asks.list)
    refine ⟨later, decides_cases defined base (by decide)
      (exists_finishes_step opened reverses joins), ?_⟩
    -- Of the variables that were there before, only the one that was asked for has been used.
    have reversing : s.Uses (· = x) s₂ :=
      opening.trans (learns.uses_var opens.inquires.unknown) fun y there same =>
        absurd same (Var.ne_later there 2)
    have total := reversing.trans (joined.uses_var whole.whole) fun _ _ same => same
    rw [List.reverse_cons]
    exact total.learns asks.unknown joined.value

/--
Reversal turns a list around.

Asked for the reverse of a known list, it ends with one row, which holds the items from the last to the
first.
-/
theorem reverso_reverses (items : List Value) :
    Demo.listProgram.RunsTo ["q"] (Demo.reverso (.list (items.map Value.term)) (named "q"))
      [[Value.answers items.reverse]] := by
  -- The run starts with its own variable for the reverse.
  obtain ⟨later, decides, learns⟩ :=
    exists_decides_reverse (p := Demo.listProgram) rfl (State.inquires_start items)
  have row : later.reifyAll (State.empty.freshVars 1).1 = [Value.answers items.reverse] := by
    show [later.reify (.var ⟨0⟩)] = _
    rw [State.reify_eq_answers learns.value]
  rw [← row, ← Value.term_list]
  refine decides.runsTo ["q"] ?_
  simp only [List.map_cons, List.map_nil, Value.instantiate_term]
  rfl

end Reverse

end Relational
