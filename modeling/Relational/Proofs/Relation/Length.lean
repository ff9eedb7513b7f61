import Relational.Proofs.Arithmetic.Evaluation
import Relational.Proofs.Goal.Starting
import Relational.Proofs.State.Matching

/-! Length: how many items a known list has, and the lists that have a known number of items. -/

namespace Relational

/-- What comes of zero when one is added to it some number of times. -/
def tally : Nat → Term Var
  | 0 => .int 0
  -- Beyond the machine range this stays an expression without a value.
  | count + 1 => .evaluated (tally count) .add (.int 1)

/-- There is a machine word before every positive one. -/
theorem exists_predecessor {k : Int64} (positive : 0 < k.toInt) :
    ∃ w : Int64, w.toInt = k.toInt - (1 : Int64).toInt := by
  have greatest := k.toInt_lt
  have one : (1 : Int64).toInt = 1 := rfl
  refine ⟨.ofInt (k.toInt - (1 : Int64).toInt), ?_⟩
  -- A positive word is above the least one, so one less is still in range.
  rw [Int64.toInt_ofInt_of_le (by omega) (by omega)]

/-- A word without a word before it is not the length of a list with an item. -/
theorem toInt_ne_succ {k : Int64} (least : word? (k.toInt - (1 : Int64).toInt) = none)
    (count : Nat) : k.toInt ≠ (count + 1 : Nat) := by
  intro counted
  -- A length with an item is positive, and positive words have a word before them.
  obtain ⟨w, before⟩ := exists_predecessor (k := k) (by omega)
  exact word?_eq_none_iff.1 least w before

/-- Counting gives the number that was counted to, if there is a machine word for it. -/
theorem tally_eq_int {count : Nat} {k : Int64} (counted : k.toInt = count) :
    tally count = .int k := by
  induction count generalizing k with
  | zero =>
    -- Zero is the only word that reads as zero.
    obtain rfl : k = 0 := Int64.toInt_inj.1 counted
    rfl
  | succ count ih =>
    obtain ⟨w, before⟩ := exists_predecessor (k := k) (by omega)
    have one : (1 : Int64).toInt = 1 := rfl
    have value : Operator.add.evaluate (.int w) (.int 1) = .ok (.int k) :=
      Operator.checked_eq_ok_iff.2 ⟨k, rfl, by omega⟩
    have fewer : w.toInt = count := by omega
    rw [tally, ih fewer, Term.evaluated, value]

/-- What is said of a list of unknown items. -/
def unknowns (count : Nat) : Answer :=
  .ofItems (List.replicate count .unknown)

/-- One more unknown item in front makes the list longer by one. -/
theorem cons_unknowns (count : Nat) : Answer.unknown.cons (unknowns count) = unknowns (count + 1) := by
  -- An empty rest gives a list of one item, as does a rest of no items.
  cases count <;> simp [unknowns, Answer.cons, Answer.ofItems, List.replicate_succ]

namespace State

variable {s s₁ : State} {n l : Term Var} {x m : Var} {items : List Value} {b k : Int64}

/-- A sum with a known number stands for the sum of what its other operand stands for. -/
theorem walkStar_sum (s : State) (t : Term Var) (b : Int64) :
    s.walkStar (.expr t .add (.int b)) = .evaluated (s.walkStar t) .add (.int b) := by
  -- The number that is added is an atom.
  have value : s.bindings.walkStar (.int b) = .int b := Substitution.walkStar_of_isAtom _ rfl
  rw [walkStar, Substitution.walkStar_expr, value]
  rfl

/-- A number is made equal to a sum with one unknown by looking for what is left of it. -/
theorem exists_unify_sum (tidy : s.Tidy) (stands : s.walkStar n = .int k)
    (free : s.walkStar (.var m) = .var m) :
    ∃ depth, s.unify n (.expr (.var m) .add (.int b)) =
      tryCandidates (unifyWithin (depth + 1)) s (.var m)
        (exactCandidate .add (k.toInt - b.toInt)) := by
  obtain ⟨depth, bound, deep⟩ := exists_depthBound_eq s n (.expr (.var m) .add (.int b))
  obtain ⟨depth, rfl⟩ : ∃ less, depth = less + 1 := ⟨depth - 1, by omega⟩
  -- The sum is no variable, so walking leaves it, and the number is none, either.
  have sum : s.walk (.expr (.var m) .add (.int b)) = .expr (.var m) .add (.int b) :=
    Substitution.walk_of_known _ nofun
  -- A sum with an unknown operand has no value yet.
  have resolved : s.walkStar (.expr (.var m) .add (.int b)) = .expr (.var m) .add (.int b) := by
    rw [walkStar_sum, free]
    rfl
  have number : s.walkStar (s.walk n) = .int k := (walkStar_walk_self tidy.acyclic n).trans stands
  -- One side is an expression, so both are resolved before they are compared.
  have resolves : s.Resolves (.expr (.var m) .add (.int b)) n := by
    refine ⟨?_, fun y walked => ?_, ?_⟩
    · rw [sum]
      nofun
    · cases stands.symm.trans (walkStar_eq_var tidy.acyclic walked)
    · rw [sum]
      exact .inl rfl
  have step : unifyTurned true (depth + 1 + 1) s (.expr (.var m) .add (.int b)) n = _ :=
    unifyTurned_solve true resolves (by rw [sum, resolved]) (by rw [number]; rfl)
  rw [number] at step
  refine ⟨depth, ?_⟩
  rw [unify, bound]
  exact step

/-- The unknown operand of a sum learns what is left of the number, if there is a word for it. -/
theorem unify_sum_learns {w : Int64} (tidy : s.Tidy) (stands : s.walkStar n = .int k)
    (free : s.walkStar (.var m) = .var m) (below : (Term.var m).Below s.nextVar)
    (left : w.toInt = k.toInt - b.toInt) :
    ∃ s', s.unify n (.expr (.var m) .add (.int b)) = .singleton s' ∧
      s.Learns (.var m) (.int w) s' := by
  obtain ⟨depth, solved⟩ := exists_unify_sum (b := b) tidy stands free
  have value : s.walkStar (.int w) = .int w := Substitution.walkStar_of_isAtom _ rfl
  obtain ⟨s', bound, learns⟩ : ∃ s', unifyTurned false (depth + 1) s (.var m) (.int w) =
      .singleton s' ∧ s.Learns (.var m) (s.walkStar (.int w)) s' :=
    unifyTurned_learns false tidy free below (Value.below_term (.int w) _) (by rw [value]; nofun)
      (by rw [value]; exact List.not_mem_nil)
  rw [value] at learns
  refine ⟨s', ?_, learns⟩
  -- There is one candidate, and a free variable can be equal to it.
  rw [solved, exactCandidate, word?_eq_some_iff.2 left]
  exact (Stream.append_empty _).trans bound

/-- A sum cannot be equal to a number if nothing in range is left of it. -/
theorem unify_sum_overflows (tidy : s.Tidy) (stands : s.walkStar n = .int k)
    (free : s.walkStar (.var m) = .var m) (beyond : word? (k.toInt - b.toInt) = none) :
    s.unify n (.expr (.var m) .add (.int b)) = .empty := by
  obtain ⟨depth, solved⟩ := exists_unify_sum (b := b) tidy stands free
  -- The operator has no candidate to try.
  rw [solved, exactCandidate, beyond]
  rfl

section Opened

variable {known : Option (List Value)} (opens : s.Opens l 3 known s₁)
  (number : s.walkStar n = (Value.int k).term)
include opens number

/-- Once a list is taken apart, one less than its length is left for the rest, if it is a word. -/
theorem Opens.exists_less {w : Int64} (before : w.toInt = k.toInt - (1 : Int64).toInt) :
    ∃ s₂, s₁.unify n (.expr (.var ⟨s.nextVar + 2⟩) .add (.int 1)) = .singleton s₂ ∧
      s₁.Learns (.var ⟨s.nextVar + 2⟩) (.int w) s₂ :=
  -- The length is known and the third fresh variable is not, so the sum is solved for it.
  unify_sum_learns opens.tidy (opens.walkStar_value number) opens.third
    (opens.below_new (by omega)) before

/-- Once a list is taken apart, the least of all words turns out to be too small for its length. -/
theorem Opens.unify_least (least : word? (k.toInt - (1 : Int64).toInt) = none) :
    s₁.unify n (.expr (.var ⟨s.nextVar + 2⟩) .add (.int 1)) = .empty :=
  -- The least word has no word before it, so the sum cannot be solved.
  unify_sum_overflows opens.tidy (opens.walkStar_value number) opens.third least

end Opened

/--
The list is taken apart, and its length becomes one more than that of the rest.

Whatever the rest is counted to, one more is the length of the whole list.
-/
theorem Inquires.exists_counts {item : Value} (asks : s.Inquires n l x (item :: items)) :
    ∃ s₁ s₂, (s.freshVars 3).2.unify l (.pair (.var ⟨s.nextVar⟩) (.var ⟨s.nextVar + 1⟩)) =
        .singleton s₁ ∧
      s₁.unify n (.expr (.var ⟨s.nextVar + 2⟩) .add (.int 1)) = .singleton s₂ ∧
      s₂.Inquires (.var ⟨s.nextVar + 2⟩) (.var ⟨s.nextVar + 1⟩) ⟨s.nextVar + 2⟩ items ∧
      ∀ {later}, s₂.Learns (.var ⟨s.nextVar + 2⟩) (tally items.length) later →
        s.Learns n (tally (item :: items).length) later := by
  obtain ⟨s₁, opened, opens, opening, unknown⟩ := asks.exists_opens (Nat.le_succ 2)
  have fresh := opens.third
  have below : (Term.var ⟨s.nextVar + 2⟩).Below s₁.nextVar := opens.below_new (by omega)
  -- The length of the rest is as unknown as that of the list, so their equation is put off.
  have sum : s₁.walkStar (.expr (.var ⟨s.nextVar + 2⟩) .add (.int 1)) =
      .expr (.var ⟨s.nextVar + 2⟩) .add (.int 1) := by
    rw [walkStar_sum, fresh]
    rfl
  -- The length and the fresh variable are different, so the sum may be bound to the length.
  have different : x ≠ ⟨s.nextVar + 2⟩ := Var.ne_later asks.allocated 2
  have inside : (Term.expr (.var ⟨s.nextVar + 2⟩) .add (.int 1)).Below s₁.nextVar :=
    Term.below_expr_iff.2 ⟨below, Value.below_term (.int 1) _⟩
  obtain ⟨s₂, met, learns⟩ := unify_learns opens.tidy unknown (asks.inside.mono opens.counts) inside
    (by rw [sum]; nofun) (by rw [sum]; simpa [Term.vars] using different)
  have uses := learns.uses_var unknown
  have still : s₂.walkStar (.var ⟨s.nextVar + 2⟩) = .var ⟨s.nextVar + 2⟩ :=
    uses.walkStar_unknown opens.tidy below fresh different.symm
  refine ⟨s₁, s₂, opened, met, ⟨uses.tidy, below.mono uses.counts,
    (opens.below_new (by omega)).mono uses.counts, still, uses.walkStar_value opens.rest⟩,
    fun {later} known => ?_⟩
  -- Of the variables that were there before, only the one for the length was used.
  have total : s.Uses (· = x) later :=
    (opening.trans uses fun _ _ same => same).trans (known.uses_var still) fun y there same =>
      absurd same (Var.ne_later there 2)
  refine total.learns asks.unknown ?_
  -- The length stands for the sum it was bound to, which has a value once the rest is counted.
  rw [walkStar_eq_of_unify met known.tidy.acyclic known.keeps, walkStar_sum, known.value]
  rfl

end State

namespace Length

open Goal Program

variable {p : Program} {s s₁ s₂ : State} {n l : Term Var} {found : List State} {x : Var}
  {items : List Value} {k : Int64}

/-- The goals of an empty list. -/
abbrev endGoals : List Goal :=
  [.eq (named "l") .unit, .eq (named "n") (.int 0)]

/-- The goals of a list with a first item: two equations, and the relation between what is left. -/
abbrev stepGoals : List Goal :=
  [.eq (named "l") (.pair (named "head") (named "tail")),
    .eq (named "n") (.expr (named "m") .add (.int 1)), lengtho (named "m") (named "tail")]

/-- What the parameters of the relation stand for. -/
abbrev env (n l : Term Var) : Env :=
  Env.extend [] ["n", "l"] [n, l]

/-- An empty list leads to the states in which its length is zero, and no other list is found. -/
theorem decides_empty {others : List State} {m : Nat} (tidy : s.Tidy)
    (list : s.walkStar l = (Value.list []).term)
    (base : p.Finishes (.conj endGoals) (env n l) s others m) (early : m ≤ 2) :
    p.Decides (.list .length) [n, l] s others := by
  -- The second alternative would have to take the list apart.
  have closed : p.Finishes (.freshAll ["head", "tail", "m"] stepGoals) (env n l) s [] 1 :=
    .fresh (finishes_conj_of_apart (State.unify_unit_pair tidy.acyclic list))
  have both : p.Decides (.list .length) [n, l] s (others ++ []) :=
    decides_cases rfl base (early.trans (Nat.le_succ 2)) ⟨1, closed⟩
  rwa [List.append_nil] at both

/-- A list with a first item leads to what is found behind that item, since it is not empty. -/
theorem decides_occupied {item : Value} (tidy : s.Tidy)
    (list : s.walkStar l = (Value.list (item :: items)).term)
    (step : ∃ m, p.Finishes (.freshAll ["head", "tail", "m"] stepGoals) (env n l) s found m) :
    p.Decides (.list .length) [n, l] s found := by
  -- The first clause asks for an empty list.
  have occupied : p.Finishes (.conj endGoals) (env n l) s [] 1 :=
    finishes_conj_of_apart (State.unify_nil_of_occupied tidy list)
  exact decides_cases rfl occupied (by decide) step

/--
The items of a known list are counted, which leads to the one state there is.

The induction is on the list. Its length is kept as a chain of sums, which is evaluated only once the
end of the list is reached.
-/
theorem exists_decides_count (p : Program) (asks : s.Inquires n l x items) :
    ∃ later, p.Decides (.list .length) [n, l] s [later] ∧
      s.Learns n (tally items.length) later := by
  induction items generalizing s n l x with
  | nil =>
    -- The list is empty, and the length learns that it is zero.
    have empty := State.unify_nil asks.tidy.acyclic asks.list
    have unknown : s.Shows n none := ⟨x, asks.unknown⟩
    obtain ⟨s₂, met, learns⟩ := State.unify_agrees (w := .int 0) asks.tidy unknown nofun
      (Value.walkStar_term _ _) asks.inside (Value.below_term _ _)
    exact ⟨s₂, decides_empty asks.tidy asks.list (finishes_conj_two empty met) (Nat.le_refl 2), learns⟩
  | cons item items ih =>
    -- One variable is taken for the length of the rest, and the sum waits for it.
    obtain ⟨s₁, s₂, opened, met, next, behind⟩ := asks.exists_counts
    obtain ⟨later, decides, learns⟩ := ih next
    exact ⟨later, decides_occupied asks.tidy asks.list
      (exists_finishes_fresh_call rfl opened met decides), behind learns⟩

/--
A known list is compared with a known length, which leads to one state if it is right and to none else.

The induction is on the list. One is taken off the length for each item, and a length that is too small
for this to stay in the machine range is too small for the list as well.
-/
theorem exists_decides_known (p : Program) (tidy : s.Tidy) (inCount : n.Below s.nextVar)
    (inList : l.Below s.nextVar) (number : s.walkStar n = (Value.int k).term)
    (list : s.walkStar l = (Value.list items).term) :
    ∃ found, p.Decides (.list .length) [n, l] s found ∧
      found.length = if k.toInt = items.length then 1 else 0 := by
  induction items generalizing s n l k with
  | nil =>
    have empty := State.unify_nil tidy.acyclic list
    have zero : s.walkStar (.int 0) = (Value.int 0).term := Value.walkStar_term _ (.int 0)
    by_cases none : k = 0
    · -- Zero is the only length that an empty list agrees with.
      subst none
      have met := State.unify_of_walkStar_eq tidy.acyclic (number.trans zero.symm) (Nat.le_refl _)
      exact ⟨[s], decides_empty tidy list (finishes_conj_two empty met) (Nat.le_refl 2), rfl⟩
    · have apart := State.unify_differs tidy number zero (by simpa using none)
      refine ⟨[], decides_empty tidy list (finishes_conj_of_apart_second empty apart)
        (Nat.le_refl 2), ?_⟩
      simp [toInt_ne_zero none]
  | cons item items ih =>
    obtain ⟨s₁, opened, opens⟩ := State.exists_opens_of_known tidy inList (Nat.le_succ 2) list
    cases before : word? (k.toInt - (1 : Int64).toInt) with
    -- No length is left for the rest, and rightly so.
    | none =>
      refine ⟨[], decides_occupied tidy list ⟨2, .fresh (finishes_conj_of_apart_second opened
        (opens.unify_least number before))⟩, ?_⟩
      rw [List.length_cons, if_neg (toInt_ne_succ before _), List.length_nil]
    | some w =>
      have read := word?_eq_some_iff.1 before
      obtain ⟨s₂, met, learns⟩ := opens.exists_less number read
      obtain ⟨found, decides, length⟩ := ih learns.tidy
        ((opens.below_new (by omega)).mono learns.counts)
        ((opens.below_new (by omega)).mono learns.counts) learns.value
        (learns.walkStar_value opens.rest)
      refine ⟨found, decides_occupied tidy list (exists_finishes_fresh_call rfl opened met decides),
        length.trans ?_⟩
      -- The rest has one item less, and the number that is left for it is less by one.
      have one : (1 : Int64).toInt = 1 := rfl
      refine if_congr ?_ rfl rfl
      rw [List.length_cons]
      omega

/-- An unknown list ends at once if its length is zero, and does not end here if it is not. -/
theorem exists_finishes_end (p : Program) (tidy : s.Tidy) (inList : l.Below s.nextVar)
    (number : s.walkStar n = (Value.int k).term) (unknown : s.Shows l none) :
    ∃ s₀, p.Finishes (.conj endGoals) (env n l) s (if k = 0 then [s₀] else []) 2 ∧
      s.Learns l (Value.list []).term s₀ := by
  have unit : s.walkStar .unit = (Value.list []).term := Value.walkStar_term _ .unit
  -- The unknown list learns that it is empty, which says nothing about the length.
  obtain ⟨s₀, empty, learns⟩ := State.unify_agrees tidy unknown nofun unit inList
    (Value.below_term .unit _)
  have still : s₀.walkStar n = (Value.int k).term := learns.walkStar_value number
  have zero : s₀.walkStar (.int 0) = (Value.int 0).term := Value.walkStar_term _ (.int 0)
  refine ⟨s₀, ?_, learns⟩
  split
  · rename_i none
    subst none
    exact finishes_conj_two empty (State.unify_of_walkStar_eq learns.tidy.acyclic
      (still.trans zero.symm) (Nat.le_refl _))
  · rename_i some
    exact finishes_conj_of_apart_second empty
      (State.unify_differs learns.tidy still zero (by simpa using some))

/--
An unknown list is given as many unknown items as a known length asks for.

The induction is on the length. The list could end before it is used up, but that is found to be wrong
while the search for longer lists still waits.
-/
theorem exists_offers_unknowns (p : Program) {count : Nat} (counted : k.toInt = count) (tidy : s.Tidy)
    (inCount : n.Below s.nextVar) (inList : l.Below s.nextVar)
    (number : s.walkStar n = (Value.int k).term) (unknown : s.Shows l none) :
    ∃ later, p.Offers (.list .length) [n, l] s [later] ∧ s.Builds l later (unknowns count) := by
  induction count generalizing s n l k with
  | zero =>
    obtain ⟨s₀, ends, learns⟩ := exists_finishes_end p tidy inList number unknown
    rw [if_pos (Int64.toInt_inj.1 counted)] at ends
    -- Nothing is asked about the lists that have items.
    have offers : p.Offers (.list .length) [n, l] s ([s₀] ++ []) :=
      offers_cases rfl ends (by decide) .none
    exact ⟨s₀, offers, learns.builds⟩
  | succ count ih =>
    obtain ⟨_, ends, _⟩ := exists_finishes_end p tidy inList number unknown
    -- The length is positive, so the clause for the empty list fails.
    have positive : k ≠ 0 := by
      intro none
      rw [none] at counted
      cases counted
    rw [if_neg positive] at ends
    -- The list is taken apart instead, and one is taken off the length.
    obtain ⟨y, free⟩ := unknown
    obtain ⟨s₁, opened, opens⟩ := State.exists_opens_of_unknown tidy inList (Nat.le_succ 2) free
    have restBelow : (Term.var ⟨s.nextVar + 1⟩).Below s₁.nextVar := opens.below_new (by omega)
    have one : (1 : Int64).toInt = 1 := rfl
    obtain ⟨w, read⟩ := exists_predecessor (k := k) (by omega)
    obtain ⟨s₂, met, learns⟩ := opens.exists_less number read
    have uses := learns.uses_var opens.third
    -- The rest of the list is as unknown as before, since only the length was looked at.
    have rest : s₂.walkStar (.var ⟨s.nextVar + 1⟩) = .var ⟨s.nextVar + 1⟩ :=
      uses.walkStar_unknown opens.tidy restBelow opens.rest (by simp)
    obtain ⟨later, offers, builds⟩ := ih (by omega) learns.tidy
      ((opens.below_new (by omega)).mono learns.counts) (restBelow.mono learns.counts) learns.value
      ⟨_, rest⟩
    have both : p.Offers (.list .length) [n, l] s ([] ++ [later]) :=
      offers_cases rfl ends (by decide) (starts_fresh_call rfl opened met offers)
    refine ⟨later, both, ?_⟩
    rw [← cons_unknowns]
    -- Neither the length nor the rest of the list has used the variable for the first item.
    refine opens.builds (by omega) opened ?_ builds.answered
    refine (uses.mono fun z _ same => ?_).trans builds.toUses fun z _ occurs => ?_
    · rw [same]
      simp
    · rw [rest] at occurs
      rw [List.mem_singleton.1 occurs]
      simp

/-- A run for the length of a list has one row, which holds the length if there is a word for it. -/
theorem exists_runsTo_lengtho (p : Program) (items : List Value) :
    ∃ answer, p.RunsTo ["n"] (lengtho (named "n") (.list (items.map Value.term))) [[answer]] ∧
      ∀ count : Int64, count.toInt = items.length → answer = .int count := by
  -- The run starts with its own variable for the length and with a list that is known.
  obtain ⟨later, decides, learns⟩ := exists_decides_count p (State.inquires_start items)
  refine ⟨later.reify (.var ⟨0⟩), ?_, fun count counted => ?_⟩
  · rw [← Value.term_list]
    refine decides.runsTo ["n"] ?_
    simp only [List.map_cons, List.map_nil, Value.instantiate_term]
    rfl
  · rw [State.reify, learns.value, tally_eq_int counted]
    rfl

/-- A run that compares a list with a length has one row if the length is right, and none if not. -/
theorem runsTo_lengtho_known (p : Program) (items : List Value) (k : Int64) :
    p.RunsTo [] (lengtho (.int k) (.list (items.map Value.term)))
      (if k.toInt = items.length then [[]] else []) := by
  obtain ⟨found, decides, length⟩ := exists_decides_known p (State.tidy_start 0)
    (Value.below_term (.int k) _) (Value.below_term (.list items) _) (Value.walkStar_term _ _)
    (Value.walkStar_term _ _)
  -- No variable is tracked, so all that a row says is that there is one.
  have rows : found.map (·.reifyAll (State.empty.freshVars 0).1) =
      if k.toInt = items.length then [[]] else [] := by
    have same : found.map (·.reifyAll (State.empty.freshVars 0).1) =
        List.replicate found.length [] := List.map_const
    -- There are as many empty rows as states.
    rw [same, length]
    split <;> rfl
  rw [← rows, ← Value.term_list]
  refine decides.runsTo [] ?_
  simp only [List.map_cons, List.map_nil, Value.instantiate_term]
  rfl

/-- A run for the first list of a length has one row, which holds as many unknown items. -/
theorem runsFirst_lengtho_unknowns (p : Program) {k : Int64} (natural : 0 ≤ k.toInt) :
    p.RunsFirst 1 ["q"] (lengtho (.int k) (named "q"))
      [[.ofItems (List.replicate k.toInt.toNat .unknown)]] := by
  -- The run starts with its own variable for the list, of which nothing is known.
  obtain ⟨later, offers, builds⟩ := exists_offers_unknowns p (Int.toNat_of_nonneg natural).symm
    (State.tidy_start 1) (Value.below_term (.int k) _) (by decide : (Term.var ⟨0⟩).Below 1)
    (Value.walkStar_term _ _) ⟨_, State.walkStar_start 1 _⟩
  have row : later.reifyAll (State.empty.freshVars 1).1 = [unknowns k.toInt.toNat] :=
    congrArg (fun answer => [answer]) builds.answered
  show p.RunsFirst 1 ["q"] _ [[unknowns k.toInt.toNat]]
  rw [← row]
  refine offers.runsFirst ["q"] ?_
  simp only [List.map_cons, List.map_nil]
  rfl

/--
The relation is between lists and their lengths.

Asked for the length of a known list, it ends with one row, and the row holds the length, unless that is
beyond all machine words. Asked about one length of a known list, it ends with one row if the length is
right and with none if it is not. Asked for a list of a known length, it gives first the one whose items
are all unknown.
-/
theorem lengtho_counts (p : Program) (items : List Value) (k : Int64) :
    (∃ answer, p.RunsTo ["n"] (lengtho (named "n") (.list (items.map Value.term))) [[answer]] ∧
      ∀ count : Int64, count.toInt = items.length → answer = .int count) ∧
    p.RunsTo [] (lengtho (.int k) (.list (items.map Value.term)))
      (if k.toInt = items.length then [[]] else []) ∧
    (0 ≤ k.toInt → p.RunsFirst 1 ["q"] (lengtho (.int k) (named "q"))
      [[.ofItems (List.replicate k.toInt.toNat .unknown)]]) :=
  -- One run for each of the three questions.
  ⟨exists_runsTo_lengtho p items, runsTo_lengtho_known p items k, runsFirst_lengtho_unknowns p⟩

/-- A list of two has the length two and not minus one, and two unknown items make a list of two. -/
theorem lengtho_counts_two :
    Program.standard.RunsTo ["n"] (lengtho (named "n") (.list [.int 7, .unit])) [[.int 2]] ∧
    Program.standard.RunsTo [] (lengtho (.int 2) (.list [.int 7, .unit])) [[]] ∧
    Program.standard.RunsTo [] (lengtho (.int (-1)) (.list [.int 7, .unit])) [] ∧
    Program.standard.RunsFirst 1 ["q"] (lengtho (.int 2) (named "q"))
      [[.list [.unknown, .unknown]]] := by
  obtain ⟨⟨answer, counts, known⟩, right, builds⟩ := lengtho_counts .standard [.int 7, .unit] 2
  obtain ⟨_, wrong, _⟩ := lengtho_counts .standard [.int 7, .unit] (-1)
  -- The length of two items has a word, so the row is known.
  rw [known 2 rfl] at counts
  exact ⟨counts, right, wrong, builds (by decide)⟩

end Length

end Relational
