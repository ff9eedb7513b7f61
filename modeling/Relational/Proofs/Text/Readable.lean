import Mathlib.Tactic.SplitIfs
import Relational.Term.Text

/-! Readable texts: written values that can be told from one another and from whatever follows them. -/

namespace Relational

/-- The characters that numbers are written with. -/
def isNumeral (c : Char) : Bool :=
  c.isDigit || c == '-'

/-- What follows does not go on with a number written just before it. -/
def EndsNumber (rest : List Char) : Prop :=
  ∀ c ∈ rest.head?, isNumeral c = false

/--
A written value can be told from every other, and from whatever is written behind it.

Only a number must not be followed by more of its own characters, since nothing else marks its end.
-/
def ReadableAt {α : Type} (write : α → List Char) (a : α) : Prop :=
  ∀ {b : α} {rest other : List Char}, EndsNumber rest → EndsNumber other →
    write a ++ rest = write b ++ other → a = b ∧ rest = other

/-- All written values can be read off again. -/
def Readable {α : Type} (write : α → List Char) : Prop :=
  ∀ a, ReadableAt write a

/--
What the first character of a written value tells about it.

A number may begin with any numeral, and a truth value with one of two letters.
-/
def leadClass (c : Char) : Char :=
  if isNumeral c then '0' else if c = 'f' then 't' else c

/-- Nothing goes on with nothing. -/
theorem endsNumber_nil : EndsNumber [] :=
  nofun

/-- A character that is no part of numbers ends them. -/
theorem endsNumber_cons {c : Char} (rest : List Char) (foreign : isNumeral c = false) :
    EndsNumber (c :: rest) := by
  intro first there
  -- Only the first character is asked about.
  obtain rfl : c = first := by simpa using there
  exact foreign

/-- Values that can be read off again are written differently if they differ. -/
theorem Readable.injective {α : Type} {write : α → List Char} (readable : Readable write) :
    Function.Injective write := by
  intro a b same
  -- Nothing has to follow the text, and nothing ends a number.
  have read := readable a endsNumber_nil endsNumber_nil (congrArg (· ++ []) same)
  exact read.1

/--
Two runs of characters of one class are the same run if something else follows each of them.

The class decides where a run ends.
-/
theorem append_inj_of_class {p : Char → Bool} {run again rest other : List Char}
    (inside : ∀ c ∈ run, p c = true) (insideToo : ∀ c ∈ again, p c = true)
    (outside : ∀ c ∈ rest.head?, p c = false) (outsideToo : ∀ c ∈ other.head?, p c = false)
    (same : run ++ rest = again ++ other) : run = again ∧ rest = other := by
  -- Both runs are read off character by character.
  induction run generalizing again with
  | nil =>
    cases again with
    | nil => exact ⟨rfl, same⟩
    | cons d again =>
      -- The rest would begin with a character of the class.
      obtain rfl : rest = d :: (again ++ other) := same
      have foreign := outside d rfl
      simp [insideToo d List.mem_cons_self] at foreign
  | cons c run ih =>
    cases again with
    | nil =>
      -- The other rest would begin with a character of the class.
      obtain rfl : c :: (run ++ rest) = other := same
      have foreign := outsideToo c rfl
      simp [inside c List.mem_cons_self] at foreign
    | cons d again =>
      -- The runs have the same first character, and go on in the class behind it.
      obtain ⟨rfl, later⟩ := List.cons.inj same
      obtain ⟨rfl, rfl⟩ := ih (fun e member => inside e (List.mem_cons_of_mem _ member))
        (fun e member => insideToo e (List.mem_cons_of_mem _ member)) later
      exact ⟨rfl, rfl⟩

section Digits

variable {base m n : Nat}

/-- Different digits are written differently. -/
theorem digitChar_inj (small : m < 16) (smallToo : n < 16) (same : m.digitChar = n.digitChar) :
    m = n := by
  -- Sixteen digits, each compared with all of them.
  have table : ∀ m < 16, ∀ n < 16, Nat.digitChar m = Nat.digitChar n → m = n := by decide
  exact table m small n smallToo same

/-- Every character of a written number is the character of some digit. -/
theorem exists_digitChar_of_mem (large : 1 < base) {c : Char} (member : c ∈ Nat.toDigits base n) :
    ∃ d, c = Nat.digitChar d := by
  -- A number is written as its quotient followed by one digit for its remainder.
  induction n using Nat.strongRecOn with
  | ind n ih =>
    rw [Nat.toDigits_eq_if large] at member
    split at member
    · exact ⟨n, by simpa using member⟩
    · rcases List.mem_append.1 member with front | last
      · exact ih (n / base) (Nat.div_lt_self (by omega) large) front
      · exact ⟨n % base, by simpa using last⟩

/-- Different numbers have different digits, as long as there are enough characters for the digits. -/
theorem toDigits_inj (large : 1 < base) (small : base ≤ 16)
    (same : Nat.toDigits base m = Nat.toDigits base n) : m = n := by
  -- Taking the last digit off leaves a smaller number, so the induction is on the number itself.
  induction m using Nat.strongRecOn generalizing n with
  | ind m ih =>
    have digit : ∀ k, k % base < 16 := fun k => by
      have := Nat.mod_lt k (by omega : 0 < base)
      omega
    rw [Nat.toDigits_eq_if large, Nat.toDigits_eq_if (n := n) large] at same
    split at same <;> split at same
    · -- Both numbers are digits themselves.
      exact digitChar_inj (by omega) (by omega) (by simpa using same)
    -- A number of one digit has nothing in front of the last one.
    · simp [List.singleton_eq_append_iff] at same
    · simp [List.append_eq_singleton_iff] at same
    · -- The last digits agree, and so do the numbers in front of them.
      obtain ⟨front, last⟩ := List.append_inj' same rfl
      have quotient := ih (m / base) (Nat.div_lt_self (by omega) large) front
      have remainder := digitChar_inj (digit m) (digit n) (by simpa using last)
      rw [← Nat.div_add_mod m base, ← Nat.div_add_mod n base, quotient, remainder]

end Digits

section Numbers

/-- A number is written as its digits, behind a minus sign if it is negative. -/
theorem toList_toString_int (i : Int) : (toString i).toList =
    if 0 ≤ i then Nat.toDigits 10 i.toNat else '-' :: Nat.toDigits 10 (-i).toNat := by
  -- The library writes the sign and the magnitude.
  rw [Int.toString_eq_repr, Int.repr_eq_if]
  split <;> simp

/-- The digits of a number are numerals. -/
theorem isNumeral_of_mem_toDigits {n : Nat} {c : Char} (member : c ∈ Nat.toDigits 10 n) :
    isNumeral c = true := by
  simp [isNumeral, Nat.isDigit_of_mem_toDigits (by decide) (by decide) member]

/-- A minus sign is no digit. -/
theorem minus_not_mem_toDigits (n : Nat) : '-' ∉ Nat.toDigits 10 n := by
  intro member
  -- Every character of the digits is one, and a minus sign is not.
  have digit := Nat.isDigit_of_mem_toDigits (by decide) (by decide) member
  simp at digit

/-- An integer is written with numerals only. -/
theorem isNumeral_of_mem_int {i : Int} {c : Char} (member : c ∈ (toString i).toList) :
    isNumeral c = true := by
  rw [toList_toString_int] at member
  split at member
  · exact isNumeral_of_mem_toDigits member
  · -- The sign is a numeral, too.
    rcases List.mem_cons.1 member with rfl | digit
    · rfl
    · exact isNumeral_of_mem_toDigits digit

/-- A minus sign alone is not a number. -/
theorem toList_toString_int_ne_minus (i : Int) : (toString i).toList ≠ ['-'] := by
  rw [toList_toString_int]
  split
  · -- A number without sign would have the sign as its only digit.
    intro sign
    exact minus_not_mem_toDigits i.toNat (by simp [sign])
  · simp

/-- Different integers are written differently. -/
theorem toList_toString_int_injective : Function.Injective fun i : Int => (toString i).toList := by
  intro i j same
  simp only [toList_toString_int] at same
  split at same <;> split at same
  · have := toDigits_inj (by decide) (by decide) same
    omega
  -- A sign on one side only would be a digit of the other.
  · exact (minus_not_mem_toDigits i.toNat (by simp [same])).elim
  · exact (minus_not_mem_toDigits j.toNat (by simp [← same])).elim
  · have := toDigits_inj (by decide) (by decide) (List.cons.inj same).2
    omega

/-- Integers can be read off again. -/
theorem readable_int : Readable fun i : Int64 => (toString i.toInt).toList := by
  intro i j rest other ends endsToo same
  -- Numerals go on as long as the integer does, so both integers end at the same place.
  obtain ⟨digits, later⟩ := append_inj_of_class (fun _ => isNumeral_of_mem_int)
    (fun _ => isNumeral_of_mem_int) ends endsToo same
  exact ⟨Int64.toInt_inj.1 (toList_toString_int_injective digits), later⟩

/-- An integer begins like a number. -/
theorem leadClass_int (i : Int) (rest : List Char) :
    ((toString i).toList ++ rest).head?.map leadClass = some '0' := by
  -- There is a first character, and it is a numeral.
  cases written : (toString i).toList with
  | nil =>
    rw [toList_toString_int] at written
    split at written <;> simp at written
  | cons c digits =>
    have member : c ∈ (toString i).toList := by rw [written]; exact List.mem_cons_self
    simp [leadClass, isNumeral_of_mem_int member]

/-- Variables can be read off again. -/
theorem readable_var : Readable fun x : Var => x.text.toList := by
  intro x y rest other ends endsToo same
  -- Both begin with the same two characters and go on with a number.
  have numbered : Nat.toDigits 10 x.id ++ rest = Nat.toDigits 10 y.id ++ other := by
    simpa [Var.text] using same
  obtain ⟨digits, later⟩ := append_inj_of_class (fun _ => isNumeral_of_mem_toDigits)
    (fun _ => isNumeral_of_mem_toDigits) ends endsToo numbered
  obtain ⟨i⟩ := x
  obtain ⟨j⟩ := y
  obtain rfl : i = j := toDigits_inj (by decide) (by decide) digits
  exact ⟨rfl, later⟩

end Numbers

/-- Truth values can be read off again. -/
theorem readable_bool : Readable fun b : Bool => (boolText b).toList := by
  intro a b rest other _ _ same
  -- The two texts differ in their first letters.
  cases a <;> cases b <;> simp_all [boolText]

section Quoted

variable {c d : Char} {rest other : List Char}

/-- The character that a letter behind a backslash stands for. -/
def escapedBy (letter : Char) : Char :=
  if letter = 'n' then '\n'
  else if letter = 'r' then '\r'
  else if letter = 't' then '\t'
  else if letter = '0' then '\x00'
  else letter

/-- A short escape stands for the character it was written for. -/
theorem escapedBy_of_shortEscape? {letter : Char} (short : shortEscape? c = some letter) :
    escapedBy letter = c := by
  -- Six characters have a short escape, and each is checked against its letter.
  unfold shortEscape? at short
  split_ifs at short <;> cases short <;> simp_all [escapedBy]

/-- No short escape looks like the beginning of a code point. -/
theorem shortEscape?_ne_u : shortEscape? c ≠ some 'u' := by
  -- The letters of the short escapes are few.
  unfold shortEscape?
  split_ifs <;> simp

/-- A character is written by a short escape, by its code point, or as it is. -/
theorem escapeChar_cases (c : Char) :
    (∃ letter, shortEscape? c = some letter ∧ escapeChar c = ['\\', letter]) ∨
      escapeChar c = codePointEscape c ∨ (c ≠ '"' ∧ c ≠ '\\' ∧ escapeChar c = [c]) := by
  cases short : shortEscape? c with
  | some letter => exact .inl ⟨letter, rfl, by simp [escapeChar, short]⟩
  | none =>
    refine .inr ?_
    by_cases hidden : isInvisible c = true
    · exact .inl (by simp [escapeChar, short, hidden])
    · -- The quote and the backslash have short escapes.
      refine .inr ⟨?_, ?_, by simp [escapeChar, short, hidden]⟩ <;> rintro rfl <;> cases short

/-- The closing brace of a code point is none of its digits. -/
theorem ne_brace_of_mem_toDigits {n : Nat} (member : c ∈ Nat.toDigits 16 n) : c ≠ '\x7d' := by
  -- A brace is the character of no digit.
  obtain ⟨d, rfl⟩ := exists_digitChar_of_mem (by decide) member
  exact Nat.digitChar_ne _ rfl

/-- Code points can be read off again. -/
theorem codePointEscape_append_inj
    (same : codePointEscape c ++ rest = codePointEscape d ++ other) : c = d ∧ rest = other := by
  have digits : Nat.toDigits 16 c.toNat ++ '\x7d' :: rest = Nat.toDigits 16 d.toNat ++ '\x7d' :: other := by
    simpa [codePointEscape] using same
  -- The digits end at the brace.
  obtain ⟨numbers, later⟩ := append_inj_of_class (p := fun x => x != '\x7d')
    (fun _ member => by simpa using ne_brace_of_mem_toDigits member)
    (fun _ member => by simpa using ne_brace_of_mem_toDigits member) (by simp) (by simp) digits
  exact ⟨Char.toNat_inj.1 (toDigits_inj (by decide) (by decide) numbers), (List.cons.inj later).2⟩

/-- Escaped characters can be read off again, whatever is written behind them. -/
theorem escapeChar_append_inj (same : escapeChar c ++ rest = escapeChar d ++ other) :
    c = d ∧ rest = other := by
  rcases escapeChar_cases c with ⟨letter, short, left⟩ | left | ⟨_, plain, left⟩ <;>
    rcases escapeChar_cases d with ⟨letterToo, shortToo, right⟩ | right | ⟨_, plainToo, right⟩ <;>
    rw [left, right] at same
  · -- The letter says which character it stands for.
    obtain ⟨rfl, rfl⟩ : letter = letterToo ∧ rest = other := by simpa using same
    exact ⟨(escapedBy_of_shortEscape? short).symm.trans (escapedBy_of_shortEscape? shortToo), rfl⟩
  · obtain ⟨rfl, _⟩ : letter = 'u' ∧ _ := by simpa [codePointEscape] using same
    exact (shortEscape?_ne_u short).elim
  -- A character that is written as it is differs from the backslash of an escape.
  · exact (plainToo (List.cons.inj same).1.symm).elim
  · obtain ⟨rfl, _⟩ : 'u' = letterToo ∧ _ := by simpa [codePointEscape] using same
    exact (shortEscape?_ne_u shortToo).elim
  · exact codePointEscape_append_inj same
  · exact (plainToo (List.cons.inj same).1.symm).elim
  · exact (plain (List.cons.inj same).1).elim
  · exact (plain (List.cons.inj same).1).elim
  · exact List.cons.inj same

/-- No escaped character looks like the closing quote. -/
theorem escapeChar_append_ne_quote (c : Char) (rest other : List Char) :
    escapeChar c ++ rest ≠ '"' :: other := by
  -- All escapes begin with a backslash, and a plain character is written only if it is no quote.
  rcases escapeChar_cases c with ⟨letter, _, written⟩ | written | ⟨plain, _, written⟩ <;> rw [written]
  · simp
  · simp [codePointEscape]
  · simp [plain]

/-- The escaped characters of a text can be read off again up to the closing quote. -/
theorem escaped_append_inj {text again : List Char}
    (same : text.flatMap escapeChar ++ '"' :: rest = again.flatMap escapeChar ++ '"' :: other) :
    text = again ∧ rest = other := by
  induction text generalizing again with
  | nil =>
    cases again with
    | nil => exact ⟨rfl, (List.cons.inj same).2⟩
    | cons d again =>
      -- An escaped character is none that could close the text.
      rw [List.flatMap_cons, List.append_assoc] at same
      exact (escapeChar_append_ne_quote d _ _ same.symm).elim
  | cons c text ih =>
    cases again with
    | nil =>
      rw [List.flatMap_cons, List.append_assoc] at same
      exact (escapeChar_append_ne_quote c _ _ same).elim
    | cons d again =>
      -- One character is read off at a time, and the induction goes on behind it.
      rw [List.flatMap_cons, List.flatMap_cons, List.append_assoc, List.append_assoc] at same
      obtain ⟨rfl, later⟩ := escapeChar_append_inj same
      obtain ⟨rfl, rfl⟩ := ih later
      exact ⟨rfl, rfl⟩

/-- Quoted texts can be read off again. -/
theorem readable_quoted : Readable quoteChars := by
  intro s t rest other _ _ same
  -- Both texts open with the same quote.
  have escaped : s.toList.flatMap escapeChar ++ '"' :: rest =
      t.toList.flatMap escapeChar ++ '"' :: other := by
    simpa [quoteChars] using same
  obtain ⟨texts, later⟩ := escaped_append_inj escaped
  exact ⟨String.toList_inj.1 texts, later⟩

end Quoted

end Relational
