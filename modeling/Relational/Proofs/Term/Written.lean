import Relational.Proofs.Text.Readable

/-! Written terms: the text of a term says which term it is. -/

namespace Relational

/-- The symbol of an operator can be read off up to the blank behind it. -/
theorem Operator.symbol_append_inj {op op' : Operator} {rest other : List Char}
    (same : op.symbol.toList ++ ' ' :: rest = op'.symbol.toList ++ ' ' :: other) :
    op = op' ∧ rest = other := by
  have solid : ∀ op : Operator, ∀ c ∈ op.symbol.toList, (c != ' ') = true := by
    intro op
    cases op <;> simp [symbol]
  obtain ⟨symbols, later⟩ := append_inj_of_class (solid op) (solid op') (by simp) (by simp) same
  -- Symbols are read back as the operators they stand for.
  have read := congrArg ofSymbol? (String.toList_inj.1 symbols)
  rw [ofSymbol?_symbol, ofSymbol?_symbol] at read
  exact ⟨Option.some.inj read, (List.cons.inj later).2⟩

namespace Term

variable {t u a d l r : Term Var} {op : Operator} {c : Char} {rest other : List Char}

/-- What the first character of its text tells about a term. -/
def lead : Term Var → Char
  | .str _ => '"'
  | .int _ => '0'
  | .bool _ => 't'
  | .var _ => '_'
  | .unit | .pair .. | .expr .. => '('

/-- Whether a term goes on with a list as its rest, without a dot. -/
def isChain : Term Var → Bool
  | .unit | .pair .. => true
  | _ => false

/-- A term is the empty list, a pair, or something that ends a list behind a dot. -/
theorem chain_cases (t : Term Var) : t = .unit ∨ (∃ a d, t = .pair a d) ∨ t.isChain = false := by
  cases t with
  | unit => exact .inl rfl
  | pair a d => exact .inr (.inl ⟨a, d, rfl⟩)
  | _ => exact .inr (.inr rfl)

/-- A term by itself begins with a character of its own class. -/
theorem leadClass_charsAt (t : Term Var) (rest : List Char) :
    (t.charsAt .alone ++ rest).head?.map leadClass = some t.lead := by
  -- Numbers begin with a digit or a sign, and every other kind with a letter or sign of its own.
  cases t with
  | int i => exact leadClass_int i.toInt rest
  | bool b => cases b <;> rfl
  | var x => simp [charsAt, Place.closing, Var.text, leadClass, isNumeral, lead]
  | _ => rfl

/-- Terms whose texts begin alike are of one kind. -/
theorem lead_eq_of_append_eq (same : t.charsAt .alone ++ rest = u.charsAt .alone ++ other) :
    t.lead = u.lead := by
  -- The class of the first character tells the kind of a term.
  have leads := congrArg (fun chars => chars.head?.map leadClass) same
  simpa only [leadClass_charsAt, Option.some.injEq] using leads

/-- No term begins with a character of another class than those of terms. -/
theorem charsAt_alone_ne_cons (foreign : leadClass c ∉ ['"', '0', 't', '_', '(']) :
    t.charsAt .alone ++ rest ≠ c :: other := by
  intro same
  -- The first character of a term is of the class that belongs to its kind.
  have leads := leadClass_charsAt t rest
  rw [same] at leads
  obtain known : leadClass c = t.lead := by simpa using leads
  rw [known] at foreign
  cases t <;> simp [lead] at foreign

section Layout

/-- A pair by itself opens a parenthesis that its rest closes. -/
theorem charsAt_alone_pair (a d : Term Var) (rest : List Char) :
    (pair a d).charsAt .alone ++ rest = '(' :: (a.charsAt .alone ++ (d.charsAt .rest ++ rest)) := by
  simp [charsAt, Place.opening]

/-- A pair as the rest of a list puts its first item behind a blank. -/
theorem charsAt_rest_pair (a d : Term Var) (rest : List Char) :
    (pair a d).charsAt .rest ++ rest = ' ' :: (a.charsAt .alone ++ (d.charsAt .rest ++ rest)) := by
  simp [charsAt, Place.opening]

/-- An expression has its operator between blanks. -/
theorem charsAt_alone_expr (l : Term Var) (op : Operator) (r : Term Var) (rest : List Char) :
    (expr l op r).charsAt .alone ++ rest = '(' :: (l.charsAt .alone ++
      ' ' :: (op.symbol.toList ++ ' ' :: (r.charsAt .alone ++ ')' :: rest))) := by
  simp [charsAt, Place.closing]

/-- Any other rest of a list stands behind a dot, and in front of the closing parenthesis. -/
theorem charsAt_rest_of_not_isChain (ends : t.isChain = false) (rest : List Char) :
    t.charsAt .rest ++ rest = ' ' :: '.' :: ' ' :: (t.charsAt .alone ++ ')' :: rest) := by
  -- Empty lists and pairs do go on a list.
  cases t with
  | unit => cases ends
  | pair a d => cases ends
  | _ => simp [charsAt, Place.closing]

/-- What follows an item of a list ends a number. -/
theorem endsNumber_charsAt_rest (t : Term Var) (rest : List Char) :
    EndsNumber (t.charsAt .rest ++ rest) := by
  -- Behind an item there is a blank or a closing parenthesis.
  cases t <;> exact endsNumber_cons _ rfl

end Layout

/-- No term is written like an operator. -/
theorem charsAt_alone_ne_symbol (ends : EndsNumber rest) :
    t.charsAt .alone ++ rest ≠ op.symbol.toList ++ ' ' :: other := by
  cases op with
  | sub =>
    intro same
    have minus : t.charsAt .alone ++ rest = ['-'] ++ ' ' :: other := same
    -- A minus sign begins a number, but the number would have to end behind it.
    have leads := leadClass_charsAt t rest
    rw [minus] at leads
    cases t with
    | int i =>
      obtain ⟨sign, _⟩ := append_inj_of_class (fun _ => isNumeral_of_mem_int) (by simp [isNumeral])
        ends (endsNumber_cons _ rfl) minus
      exact toList_toString_int_ne_minus i.toInt sign
    | _ => simp [lead, leadClass, isNumeral] at leads
  | _ => exact charsAt_alone_ne_cons (by decide)

/-- No rest of a list is written like the operator of an expression. -/
theorem charsAt_rest_ne_operator :
    d.charsAt .rest ++ rest ≠ ' ' :: (op.symbol.toList ++ ' ' :: other) := by
  rcases chain_cases d with rfl | ⟨a, d, rfl⟩ | tail
  · simp [charsAt, Place.nothing]
  · -- A list may go on behind the same blank, but with a term.
    intro same
    rw [charsAt_rest_pair] at same
    exact charsAt_alone_ne_symbol (endsNumber_charsAt_rest d rest) (List.cons.inj same).2
  · rw [charsAt_rest_of_not_isChain tail]
    cases op <;> simp [Operator.symbol]

section Reading

/-- A text, a number, a truth value or a variable by itself can be read off again. -/
theorem readableAt_leaf (leaf : t.lead ≠ '(') : ReadableAt (charsAt · .alone) t := by
  intro u rest other ends endsToo same
  -- The first character leaves one kind of term on the other side, too.
  have leads := lead_eq_of_append_eq same
  cases t with
  | str s =>
    -- A quoted text ends at its closing quote.
    cases u with
    | str s' =>
      obtain ⟨rfl, rfl⟩ := readable_quoted s ends endsToo same
      exact ⟨rfl, rfl⟩
    | _ => simp [lead] at leads
  | int i =>
    -- An integer ends where its numerals do.
    cases u with
    | int j =>
      obtain ⟨rfl, rfl⟩ := readable_int i ends endsToo same
      exact ⟨rfl, rfl⟩
    | _ => simp [lead] at leads
  | bool x =>
    -- A truth value is one of two words.
    cases u with
    | bool y =>
      obtain ⟨rfl, rfl⟩ := readable_bool x ends endsToo same
      exact ⟨rfl, rfl⟩
    | _ => simp [lead] at leads
  | var x =>
    -- The number of a variable ends where its digits do.
    cases u with
    | var y =>
      obtain ⟨rfl, rfl⟩ := readable_var x ends endsToo same
      exact ⟨rfl, rfl⟩
    | _ => simp [lead] at leads
  | _ => exact absurd rfl leaf

/-- The empty list by itself can be read off again. -/
theorem readableAt_unit : ReadableAt (charsAt · .alone) .unit := by
  intro u rest other _ _ same
  -- Only what begins with a parenthesis comes into question.
  have leads := lead_eq_of_append_eq same
  have opened : unit.charsAt .alone ++ rest = '(' :: ')' :: rest := rfl
  rw [opened] at same
  cases u with
  | unit => exact ⟨rfl, (List.cons.inj (List.cons.inj same).2).2⟩
  | pair b e =>
    -- No term begins with a closing parenthesis.
    rw [charsAt_alone_pair] at same
    exact (charsAt_alone_ne_cons (by decide) (List.cons.inj same).2.symm).elim
  | expr l op r =>
    rw [charsAt_alone_expr] at same
    exact (charsAt_alone_ne_cons (by decide) (List.cons.inj same).2.symm).elim
  | _ => simp [lead] at leads

/-- A pair by itself can be read off again if its components can. -/
theorem readableAt_pair (first : ReadableAt (charsAt · .alone) a) (back : ReadableAt (charsAt · .rest) d) :
    ReadableAt (charsAt · .alone) (.pair a d) := by
  intro u rest other ends endsToo same
  -- Only lists and expressions begin with a parenthesis.
  have leads := lead_eq_of_append_eq same
  rw [charsAt_alone_pair] at same
  cases u with
  -- An empty list closes at once, and no first item begins like that.
  | unit => exact (charsAt_alone_ne_cons (by decide) (List.cons.inj same).2).elim
  | pair b e =>
    -- What is left behind the first item is the rest of a list on both sides.
    rw [charsAt_alone_pair] at same
    obtain ⟨rfl, behind⟩ := first (endsNumber_charsAt_rest d rest) (endsNumber_charsAt_rest e other)
      (List.cons.inj same).2
    obtain ⟨rfl, rfl⟩ := back ends endsToo behind
    exact ⟨rfl, rfl⟩
  | expr l op r =>
    -- Behind the same first term one text goes on with the list, and the other with an operator.
    rw [charsAt_alone_expr] at same
    obtain ⟨_, behind⟩ := first (endsNumber_charsAt_rest d rest) (endsNumber_cons _ rfl)
      (List.cons.inj same).2
    exact (charsAt_rest_ne_operator behind).elim
  | _ => simp [lead] at leads

/-- An expression by itself can be read off again if its operands can. -/
theorem readableAt_expr (left : ReadableAt (charsAt · .alone) l) (right : ReadableAt (charsAt · .alone) r) :
    ReadableAt (charsAt · .alone) (.expr l op r) := by
  intro u rest other _ _ same
  have leads := lead_eq_of_append_eq same
  rw [charsAt_alone_expr] at same
  cases u with
  | unit => exact (charsAt_alone_ne_cons (by decide) (List.cons.inj same).2).elim
  | pair b e =>
    -- Behind the same left operand there is an operator on one side, and the rest of a list on the other.
    rw [charsAt_alone_pair] at same
    obtain ⟨_, behind⟩ := left (endsNumber_cons _ rfl) (endsNumber_charsAt_rest e other)
      (List.cons.inj same).2
    exact (charsAt_rest_ne_operator behind.symm).elim
  | expr l' op' r' =>
    -- Left operand, operator and right operand are read one behind the other.
    rw [charsAt_alone_expr] at same
    obtain ⟨rfl, behind⟩ := left (endsNumber_cons _ rfl) (endsNumber_cons _ rfl) (List.cons.inj same).2
    obtain ⟨rfl, operand⟩ := Operator.symbol_append_inj (List.cons.inj behind).2
    obtain ⟨rfl, closed⟩ := right (endsNumber_cons _ rfl) (endsNumber_cons _ rfl) operand
    exact ⟨rfl, (List.cons.inj closed).2⟩
  | _ => simp [lead] at leads

/-- The end of a list can be read off again. -/
theorem readableAt_rest_unit : ReadableAt (charsAt · .rest) .unit := by
  intro u rest other _ _ same
  have closed : unit.charsAt .rest ++ rest = ')' :: rest := rfl
  rw [closed] at same
  -- A pair or a dotted tail puts a blank where the list is closed here.
  rcases chain_cases u with rfl | ⟨b, e, rfl⟩ | tail
  · -- Both lists end here.
    exact ⟨rfl, (List.cons.inj same).2⟩
  · simp [charsAt_rest_pair] at same
  · simp [charsAt_rest_of_not_isChain tail] at same

/-- The later items of a list can be read off again. -/
theorem readableAt_rest_pair (first : ReadableAt (charsAt · .alone) a)
    (back : ReadableAt (charsAt · .rest) d) : ReadableAt (charsAt · .rest) (.pair a d) := by
  intro u rest other ends endsToo same
  rw [charsAt_rest_pair] at same
  rcases chain_cases u with rfl | ⟨b, e, rfl⟩ | tail
  · simp [charsAt, Place.nothing] at same
  · rw [charsAt_rest_pair] at same
    obtain ⟨rfl, behind⟩ := first (endsNumber_charsAt_rest d rest) (endsNumber_charsAt_rest e other)
      (List.cons.inj same).2
    obtain ⟨rfl, rfl⟩ := back ends endsToo behind
    exact ⟨rfl, rfl⟩
  · -- No item begins with a dot.
    rw [charsAt_rest_of_not_isChain tail] at same
    exact (charsAt_alone_ne_cons (by decide) (List.cons.inj same).2).elim

/-- The tail behind a dot can be read off again if it can be read off by itself. -/
theorem readableAt_rest_of_not_isChain (ends : t.isChain = false)
    (alone : ReadableAt (charsAt · .alone) t) : ReadableAt (charsAt · .rest) t := by
  intro u rest other _ _ same
  rw [charsAt_rest_of_not_isChain ends] at same
  rcases chain_cases u with rfl | ⟨b, e, rfl⟩ | tail
  · -- The end of a list has no dot.
    simp [charsAt, Place.nothing] at same
  · -- Behind the blank there would be an item, and no item begins with a dot.
    rw [charsAt_rest_pair] at same
    exact (charsAt_alone_ne_cons (by decide) (List.cons.inj same).2.symm).elim
  · -- Both tails stand behind their dots, and in front of the closing parenthesis.
    rw [charsAt_rest_of_not_isChain tail] at same
    have tails : t.charsAt .alone ++ ')' :: rest = u.charsAt .alone ++ ')' :: other := by simpa using same
    obtain ⟨rfl, closed⟩ := alone (endsNumber_cons _ rfl) (endsNumber_cons _ rfl) tails
    exact ⟨rfl, (List.cons.inj closed).2⟩

/-- Terms can be read off again, wherever they are written. -/
theorem readableAt_charsAt (t : Term Var) :
    ReadableAt (charsAt · .alone) t ∧ ReadableAt (charsAt · .rest) t := by
  -- A pair asks for its rest as the rest of a list, so both places go through the induction together.
  induction t with
  | unit => exact ⟨readableAt_unit, readableAt_rest_unit⟩
  | pair a d first back => exact ⟨readableAt_pair first.1 back.2, readableAt_rest_pair first.1 back.2⟩
  | expr l op r left right =>
    have alone : ReadableAt (charsAt · .alone) (expr l op r) := readableAt_expr left.1 right.1
    exact ⟨alone, readableAt_rest_of_not_isChain rfl alone⟩
  | _ =>
    refine ⟨readableAt_leaf ?_, readableAt_rest_of_not_isChain rfl (readableAt_leaf ?_)⟩ <;> simp [lead]

end Reading

/-- Terms with the same text are the same term. -/
theorem term_text_injective : Function.Injective text := by
  intro t u same
  -- Reading off needs the texts of parts in every place, and the whole term stands by itself.
  have readable : Readable (charsAt · .alone) := fun t => (readableAt_charsAt t).1
  exact readable.injective (String.ofList_inj.1 same)

end Term

end Relational
