import Relational.Arithmetic.Evaluate

/-! Substitutions: which term each bound variable stands for, and how terms are resolved by them. -/

namespace Relational

/-- A variable and the term it is bound to. -/
abbrev Binding := Var × Term Var

/-- The term of a variable among bindings listed by decreasing variable. -/
def findBinding (x : Var) : List Binding → Option (Term Var)
  | [] => none
  | (y, t) :: rest =>
    -- Behind a smaller variable there are only smaller ones.
    if y.id < x.id then none
    else if x = y then some t
    else findBinding x rest

/-- Puts a binding among others listed by decreasing variable, in place of one of the same variable. -/
def putBinding (x : Var) (t : Term Var) : List Binding → List Binding
  | [] => [(x, t)]
  | (y, u) :: rest =>
    if y.id < x.id then (x, t) :: (y, u) :: rest
    else if x = y then (x, t) :: rest
    else (y, u) :: putBinding x t rest

/-- The total size of the bound terms. -/
def bindingWeight : List Binding → Nat
  | [] => 0
  | (_, t) :: rest => t.size + bindingWeight rest

/-- The size of the term a variable is bound to, and zero if it is not bound. -/
def boundSize (x : Var) (bindings : List Binding) : Nat :=
  match findBinding x bindings with
  | some t => t.size
  | none => 0

/-- Variables of different numbers are different variables. -/
theorem Var.id_ne {x y : Var} (different : x ≠ y) : x.id ≠ y.id := by
  -- A variable is nothing but its number.
  intro equal
  exact different (by cases x; cases y; exact congrArg Var.mk equal)

/-- A binding is either the new one or was there before. -/
theorem mem_putBinding {x : Var} {t : Term Var} {bindings : List Binding} {binding : Binding}
    (member : binding ∈ putBinding x t bindings) : binding = (x, t) ∨ binding ∈ bindings := by
  -- The new binding goes in front of the rest or is put somewhere behind.
  induction bindings with
  | nil => simpa [putBinding] using member
  | cons other rest ih =>
    obtain ⟨y, u⟩ := other
    rw [putBinding] at member
    split at member
    · -- In front of a smaller variable the whole list stays behind the new binding.
      simpa using member
    · split at member
      · -- In place of a binding of the same variable the rest of the list stays as it is.
        rcases List.mem_cons.1 member with same | old
        · exact .inl same
        · exact .inr (List.mem_cons_of_mem _ old)
      · -- Behind a larger variable the first binding stays, and the new one goes into the rest.
        rcases List.mem_cons.1 member with same | old
        · exact .inr (same ▸ List.mem_cons_self)
        · exact (ih old).imp_right (List.mem_cons_of_mem _)

/-- Putting a binding in keeps the order by variable. -/
theorem pairwise_putBinding (x : Var) (t : Term Var) {bindings : List Binding}
    (ordered : bindings.Pairwise fun a b => b.1.id < a.1.id) :
    (putBinding x t bindings).Pairwise fun a b => b.1.id < a.1.id := by
  -- The invariant is used at the front, where every later variable is known to be smaller.
  induction bindings with
  | nil => exact List.pairwise_singleton ..
  | cons other rest ih =>
    obtain ⟨y, u⟩ := other
    obtain ⟨below, ordered⟩ := List.pairwise_cons.1 ordered
    rw [putBinding]
    split
    -- The new variable comes first, so everything after it is smaller.
    next less =>
      refine List.pairwise_cons.2 ⟨fun binding member => ?_, List.pairwise_cons.2 ⟨below, ordered⟩⟩
      rcases List.mem_cons.1 member with same | later
      · exact same ▸ less
      · exact Nat.lt_trans (below binding later) less
    next notLess =>
      split
      -- The same variable keeps its place.
      next same =>
        exact List.pairwise_cons.2 ⟨fun binding member => same ▸ below binding member, ordered⟩
      -- The new variable goes somewhere behind the first.
      next different =>
        refine List.pairwise_cons.2 ⟨fun binding member => ?_, ih ordered⟩
        rcases mem_putBinding member with new | old
        · -- The new variable is smaller than the first one, being neither larger nor the same.
          have ids := Var.id_ne different
          rw [new]
          show x.id < y.id
          omega
        · exact below binding old

/-- Looking a variable up finds the new binding, and every other one as before. -/
theorem findBinding_putBinding (x y : Var) (t : Term Var) (bindings : List Binding) :
    findBinding y (putBinding x t bindings) = if y = x then some t else findBinding y bindings := by
  -- The lookup stops where the list gets past the variable, so the case split follows the insertion.
  induction bindings with
  | nil =>
    -- There is nothing but the new binding to be found.
    by_cases same : y = x
    · simp [putBinding, findBinding, same]
    · simp [putBinding, findBinding, same]
  | cons other rest ih =>
    obtain ⟨z, u⟩ := other
    rw [putBinding]
    split
    next less =>
      -- The new binding stands in front.
      by_cases same : y = x
      · simp [findBinding, same]
      · rw [if_neg same, findBinding, if_neg same]
        -- Past the new variable, the search would have stopped at the first one already.
        split
        next larger =>
          have stopped : z.id < y.id := Nat.lt_trans less larger
          rw [findBinding, if_pos stopped]
        next => rfl
    next notLess =>
      split
      -- The earlier binding of the same variable is out of sight either way.
      next equal =>
        subst equal
        by_cases same : y = x <;> simp [findBinding, same]
      next different =>
        rw [findBinding, findBinding, ih]
        have ids := Var.id_ne different
        -- Behind the first binding, the two lookups go on in step.
        by_cases same : y = x
        · have notPast : ¬ z.id < y.id := by rw [same]; exact notLess
          have notHere : y ≠ z := by rw [same]; exact different
          simp [same, notLess, different]
        · simp [same]

/-- Putting a binding in replaces the size of the variable's earlier term by that of the new one. -/
theorem bindingWeight_putBinding (x : Var) (t : Term Var) (bindings : List Binding) :
    bindingWeight (putBinding x t bindings) + boundSize x bindings
      = bindingWeight bindings + t.size := by
  -- At most one binding is replaced, and its term is the one whose size is given back.
  induction bindings with
  | nil => simp [putBinding, bindingWeight, boundSize, findBinding]
  | cons other rest ih =>
    obtain ⟨y, u⟩ := other
    simp only [putBinding, boundSize, findBinding]
    split
    -- Nothing is replaced here, since behind a smaller variable there is no binding of this one.
    next less => simp [bindingWeight]; omega
    next notLess =>
      split
      -- This is the binding that is replaced.
      next same => simp [bindingWeight]; omega
      next different =>
        simp only [bindingWeight, boundSize] at ih ⊢
        omega

/-- Bindings listed by decreasing variable are determined by what looking variables up finds. -/
theorem eq_of_findBinding_eq {bindings others : List Binding}
    (ordered : bindings.Pairwise fun a b => b.1.id < a.1.id)
    (otherOrdered : others.Pairwise fun a b => b.1.id < a.1.id)
    (same : ∀ x, findBinding x bindings = findBinding x others) : bindings = others := by
  -- A variable larger than all others is not found.
  have beyond : ∀ {x : Var} {list : List Binding},
      (∀ binding ∈ list, binding.1.id < x.id) → findBinding x list = none := by
    intro x list below
    cases list with
    | nil => rfl
    | cons first rest => rw [findBinding, if_pos (below first List.mem_cons_self)]
  -- The lists are taken apart together, largest variable first.
  induction bindings generalizing others with
  | nil =>
    cases others with
    | nil => rfl
    | cons first rest =>
      -- The variable of a binding that only one of them has is found on that side only.
      have found := same first.1
      simp [findBinding] at found
  | cons first rest ih =>
    cases others with
    | nil =>
      have found := same first.1
      simp [findBinding] at found
    | cons other tail =>
      obtain ⟨x, t⟩ := first
      obtain ⟨y, u⟩ := other
      obtain ⟨below, restOrdered⟩ := List.pairwise_cons.1 ordered
      obtain ⟨otherBelow, tailOrdered⟩ := List.pairwise_cons.1 otherOrdered
      -- The largest variables agree, because each of them is found on the other side.
      have first := same x
      have second := same y
      simp only [findBinding, Nat.lt_irrefl, if_false, if_true] at first second
      have equal : x = y := by
        by_cases equal : x = y
        · exact equal
        · have ids := Var.id_ne equal
          by_cases less : y.id < x.id
          · simp [less] at first
          · have greater : x.id < y.id := by omega
            simp [greater] at second
      subst equal
      have terms : t = u := by simpa using first
      subst terms
      congr 1
      -- What the rests bind is read off the whole lists, apart from the variable in front.
      refine ih restOrdered tailOrdered fun z => ?_
      have whole := same z
      simp only [findBinding] at whole
      by_cases past : x.id < z.id
      · -- A variable beyond the first is in neither rest.
        rw [beyond fun binding member => Nat.lt_trans (below binding member) past,
          beyond fun binding member => Nat.lt_trans (otherBelow binding member) past]
      · by_cases here : z = x
        · subst here
          rw [beyond below, beyond otherBelow]
        · simpa [past, here] using whole

/--
Terms for finitely many variables, listed by decreasing variable.

The order makes two substitutions equal exactly when they bind the same variables to the same terms,
and finds the variables of the latest steps of a search first.
-/
structure Substitution where
  entries : List Binding
  /-- The total size of all bound terms, kept at hand. -/
  weight : Nat
  ordered : entries.Pairwise fun a b => b.1.id < a.1.id
  weighed : weight = bindingWeight entries
  deriving DecidableEq

namespace Substitution

/-- The substitution that binds nothing. -/
def empty : Substitution :=
  ⟨[], 0, .nil, rfl⟩

/-- The bindings by increasing variable. -/
def toList (s : Substitution) : List Binding :=
  s.entries.reverse

/-- How many variables are bound. -/
def size (s : Substitution) : Nat :=
  s.entries.length

/-- Whether no variable is bound. -/
def isEmpty (s : Substitution) : Bool :=
  s.entries.isEmpty

/-- The term a variable is bound to, not resolved any further. -/
def get? (s : Substitution) (x : Var) : Option (Term Var) :=
  findBinding x s.entries

/-- Binds a variable, giving up an earlier binding of it, whatever the term contains. -/
def extend (s : Substitution) (x : Var) (t : Term Var) : Substitution where
  entries := putBinding x t s.entries
  weight := s.weight + t.size - boundSize x s.entries
  ordered := pairwise_putBinding x t s.ordered
  weighed := by
    have balance := bindingWeight_putBinding x t s.entries
    have before := s.weighed
    omega

/-- Substitutions that bind the same variables to the same terms are equal. -/
theorem ext_get? {s s' : Substitution} (same : ∀ x, s.get? x = s'.get? x) : s = s' := by
  obtain ⟨entries, weight, ordered, weighed⟩ := s
  obtain ⟨entries', weight', ordered', weighed'⟩ := s'
  obtain rfl : entries = entries' := eq_of_findBinding_eq ordered ordered' same
  -- The weight is that of the bindings, so it agrees as well.
  obtain rfl : weight = weight' := weighed.trans weighed'.symm
  rfl

/-- Extending a substitution changes what one variable is bound to, and nothing else. -/
theorem get?_extend (s : Substitution) (x y : Var) (t : Term Var) :
    (s.extend x t).get? y = if y = x then some t else s.get? y :=
  -- A substitution is its bindings, and putting one in is all that extending does.
  findBinding_putBinding x y t s.entries

/-- Every bound term has a node, so there are at most as many bindings as nodes. -/
theorem size_le_weight (s : Substitution) : s.size ≤ s.weight := by
  -- Both sides are counted along the list of bindings.
  rw [s.weighed, size]
  induction s.entries with
  | nil => exact Nat.zero_le _
  | cons first rest ih =>
    have node : 1 ≤ first.2.size := first.2.one_le_size
    simp only [List.length_cons, bindingWeight] at ih ⊢
    omega

/--
Looks up variables, each of them bound to the next, until a term is reached that is no variable, or a
variable that is not bound.

There is no answer if there are still variables to look up after `lookups` of them.
-/
def walkWithin? (s : Substitution) : (lookups : Nat) → Term Var → Option (Term Var)
  | lookups + 1, .var x =>
    match s.get? x with
    | some t => s.walkWithin? lookups t
    | none => some (.var x)
  | 0, .var _ => none
  | _, t => some t

/--
Follows bindings until a term is reached that is no variable, or a variable that is not bound.

There is no answer only if that never happens: a chain of variables that ends meets every binding at
most once, and there are no more bindings than the weight counts.
-/
def walk? (s : Substitution) (t : Term Var) : Option (Term Var) :=
  s.walkWithin? (s.weight + 1) t

/-- What following bindings leads to; a term from which it never ends is left as it is. -/
def walk (s : Substitution) (t : Term Var) : Term Var :=
  (s.walk? t).getD t

/-- Resolves a term through at most `hops` nested bindings. -/
def walkStarWithin (s : Substitution) : (hops : Nat) → Term Var → Term Var
  | 0, t => t.resolve .var
  | hops + 1, t => t.resolve fun x =>
    match s.get? x with
    | some u => s.walkStarWithin hops u
    | none => .var x

/--
Resolves every variable in a term, and evaluates every expression that has a value then.

Bindings that do not lead back to themselves are nested at most as deep as there are bindings.
-/
def walkStar (s : Substitution) (t : Term Var) : Term Var :=
  s.walkStarWithin s.size t

/-- The text of a substitution. -/
def text (s : Substitution) : String :=
  let items := s.toList.map fun (x, t) => x.text ++ ": " ++ t.text
  "\x7b" ++ ", ".intercalate items ++ "\x7d"

end Substitution

end Relational
