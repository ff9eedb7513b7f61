import Relational.Proofs.Term.Value

/-! Splits: all ways to cut a list of values in two, and those that agree with what is known. -/

namespace Relational

section Splits

variable {α : Type} {items : List α}

/-- All ways to split a list in two, with shorter fronts first. -/
def splits (items : List α) : List (List α × List α) :=
  (List.range (items.length + 1)).map fun i => (items.take i, items.drop i)

/-- The first item of a list is behind an empty front, or it begins the front of any other split. -/
theorem splits_cons (item : α) (items : List α) :
    splits (item :: items) =
      ([], item :: items) :: (splits items).map fun parts => (item :: parts.1, parts.2) := by
  -- Each position but the first is one behind a position of the rest.
  rw [splits, List.length_cons, List.range_succ_eq_map]
  simp [splits, Function.comp_def]

/-- The parts of a split make up the list, and any two parts that do are a split. -/
theorem mem_splits_iff {parts : List α × List α} :
    parts ∈ splits items ↔ parts.1 ++ parts.2 = items := by
  constructor
  · intro listed
    -- A split cuts the list after so many items, and the two parts can be put together again.
    obtain ⟨i, _, rfl⟩ := List.mem_map.1 listed
    exact List.take_append_drop i items
  · rintro rfl
    -- Conversely, two parts are a cut after as many items as the first of them has.
    refine List.mem_map.2 ⟨parts.1.length, List.mem_range.2 ?_, ?_⟩
    · rw [List.length_append]
      omega
    · rw [List.take_left, List.drop_left]

/-- No split comes twice, since their fronts have different lengths. -/
theorem nodup_splits (items : List α) : (splits items).Nodup := by
  refine List.Nodup.map_on (fun i within j within' same => ?_) List.nodup_range
  -- The number of items before the cut can be read off the front.
  have lengths := congrArg (fun parts => parts.1.length) same
  have first := List.mem_range.1 within
  have second := List.mem_range.1 within'
  simp only [List.length_take] at lengths
  omega

end Splits

/-- Whatever is known of a list agrees with it. -/
def Fits (known : Option (List Value)) (items : List Value) : Prop :=
  ∀ k ∈ known, k = items

instance (known : Option (List Value)) (items : List Value) : Decidable (Fits known items) :=
  inferInstanceAs (Decidable (∀ k ∈ known, k = items))

/-- What is known of a list that fits is its value. -/
theorem Fits.eq_list {known : Option (List Value)} {items : List Value} (fit : Fits known items) :
    ∀ k ∈ known.map Value.list, k = Value.list items := by
  intro k member
  -- What is known is the list of some items, and those are the ones that fit.
  obtain ⟨others, shown, rfl⟩ := Option.mem_map.1 member
  rw [fit others shown]

/-- If a list does not fit, another one is known. -/
theorem exists_of_not_fits {known : Option (List Value)} {items : List Value}
    (apart : ¬ Fits known items) :
    ∃ others, known = some others ∧ Value.list others ≠ Value.list items := by
  cases known with
  -- Of a list that nothing is known of, everything fits.
  | none => exact absurd nofun apart
  | some others =>
    refine ⟨others, rfl, fun same => apart fun k shown => ?_⟩
    rw [← Option.some.inj shown, Value.list_injective same]

/-- What is known of a list with a first item is known of that item and of the rest. -/
theorem fits_cons_iff {known : Option (List Value)} {item : Value} {items : List Value} :
    Fits known (item :: items) ↔
      known ≠ some [] ∧ (∀ k ∈ known.bind List.head?, k = item) ∧
        Fits (known.map List.tail) items := by
  match known with
  -- Nothing is known, an empty list is, or one with a first item.
  | none => simp [Fits]
  | some [] => simp [Fits]
  | some (k :: rest) => simp [Fits]

/-- Both parts of a list agree with what is known of them. -/
def fitsBoth (front back : Option (List Value)) (parts : List Value × List Value) : Bool :=
  Fits front parts.1 ∧ Fits back parts.2

/-- With only the back known, only the back has to fit. -/
theorem fitsBoth_back_iff {back : List Value} {parts : List Value × List Value} :
    fitsBoth none (some back) parts = true ↔ parts.2 = back := by
  simp [fitsBoth, Fits, eq_comm]

/-- With only the front known, only the front has to fit. -/
theorem fitsBoth_front_iff {front : List Value} {parts : List Value × List Value} :
    fitsBoth (some front) none parts = true ↔ parts.1 = front := by
  simp [fitsBoth, Fits, eq_comm]

/-- The ways to split a list that agree with what is known of the two parts. -/
def fitting (front back : Option (List Value)) (items : List Value) :
    List (List Value × List Value) :=
  (splits items).filter (fitsBoth front back)

/-- The fitting splits of a list with a first item: the one with an empty front, and all behind it. -/
theorem fitting_cons (front back : Option (List Value)) (item : Value) (items : List Value) :
    fitting front back (item :: items) =
      [([], item :: items)].filter (fitsBoth front back) ++
        if front ≠ some [] ∧ ∀ k ∈ front.bind List.head?, k = item then
          (fitting (front.map List.tail) back items).map fun parts => (item :: parts.1, parts.2)
        else [] := by
  rw [fitting, splits_cons, ← List.singleton_append, List.filter_append, List.filter_map]
  congr 1
  split
  · -- The item is the first one of the front, so what is left has to fit the rest of the front.
    rename_i agrees
    refine congrArg _ (List.filter_congr fun parts _ => ?_)
    simp only [Function.comp, fitsBoth, fits_cons_iff, decide_eq_decide]
    exact and_congr_left fun _ => ⟨fun fit => fit.2.2, fun fit => ⟨agrees.1, agrees.2, fit⟩⟩
  · -- No split behind the first item fits a front that does not begin with it.
    rename_i differs
    refine List.map_eq_nil_iff.2 (List.filter_eq_nil_iff.2 fun parts _ fit => differs ?_)
    simp only [Function.comp, fitsBoth, fits_cons_iff, decide_eq_true_eq] at fit
    exact ⟨fit.1.1, fit.1.2.1⟩

/-- Without anything known, every split fits. -/
theorem fitting_none (items : List Value) : fitting none none items = splits items :=
  -- The filter asks for nothing.
  List.filter_eq_self.2 fun parts _ => by simp [fitsBoth, Fits]

/-- If only one split fits, it is the only one that is left. -/
theorem fitting_eq_singleton {front back : Option (List Value)} {first rest : List Value}
    (fit : fitsBoth front back (first, rest) = true)
    (only : ∀ others : List Value × List Value, others.1 ++ others.2 = first ++ rest →
      fitsBoth front back others = true → others = (first, rest)) :
    fitting front back (first ++ rest) = [(first, rest)] := by
  -- No split comes twice, so the list is determined by what is in it.
  refine List.perm_singleton.1 ((List.perm_ext_iff_of_nodup ((nodup_splits _).filter _)
    (List.nodup_singleton _)).2 fun others => ?_)
  rw [List.mem_filter, mem_splits_iff, List.mem_singleton]
  constructor
  · intro listed
    exact only others listed.1 listed.2
  · rintro rfl
    exact ⟨rfl, fit⟩

/-- If no split fits, none is left. -/
theorem fitting_eq_nil {front back : Option (List Value)} {items : List Value}
    (none : ∀ parts : List Value × List Value, items = parts.1 ++ parts.2 →
      ¬ fitsBoth front back parts = true) : fitting front back items = [] :=
  -- Every split that is listed makes up the list, and none of those fits.
  List.filter_eq_nil_iff.2 fun parts listed => none parts (mem_splits_iff.1 listed).symm

/-- With the back known, the front is what stands before it. -/
theorem fitting_back (first back : List Value) :
    fitting none (some back) (first ++ back) = [(first, back)] := by
  refine fitting_eq_singleton (fitsBoth_back_iff.2 rfl) fun others joined fit => ?_
  have same := fitsBoth_back_iff.1 fit
  rw [same] at joined
  -- Two fronts that make the same list with the same back are the same.
  exact Prod.ext (List.append_cancel_right joined) same

/-- With the front known, the back is what stands behind it. -/
theorem fitting_front (front rest : List Value) :
    fitting (some front) none (front ++ rest) = [(front, rest)] := by
  refine fitting_eq_singleton (fitsBoth_front_iff.2 rfl) fun others joined fit => ?_
  have same := fitsBoth_front_iff.1 fit
  rw [same] at joined
  -- Two backs that make the same list behind the same front are the same.
  exact Prod.ext same (List.append_cancel_left joined)

end Relational
