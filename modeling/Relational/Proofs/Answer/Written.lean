import Relational.Answer.Text
import Relational.Proofs.Answer.Canonical
import Relational.Proofs.Text.Readable

/-! Written answers: the text of an answer says which answer it is. -/

namespace Relational.Answer

variable {a b : Answer} {items others : List Answer} {rest other : List Char}

/-- What the first character of its text tells about an answer. -/
def lead : Answer → Char
  | .nil => 'n'
  | .str _ => '"'
  | .int _ => '0'
  | .bool _ => 't'
  | .list _ | .improper .. => '['
  | .unknown => '?'

/-- What is written behind the items of a list: its closing bracket, or the blank before its tail. -/
def ClosesItems (rest : List Char) : Prop :=
  rest.head? = some ']' ∨ rest.head? = some ' '

/-- An answer begins with a character of its own class. -/
theorem leadClass_chars (a : Answer) (rest : List Char) :
    (a.chars ++ rest).head?.map leadClass = some a.lead := by
  cases a with
  -- Only numbers and truth values have more than one character to begin with.
  | int i => exact leadClass_int i.toInt rest
  | bool b => cases b <;> rfl
  | _ => rfl

/-- Answers whose texts begin alike are of one kind. -/
theorem lead_eq_of_append_eq (same : a.chars ++ rest = b.chars ++ other) : a.lead = b.lead := by
  -- Both texts go on with something, but the first character belongs to the answer.
  have leads := congrArg (fun chars => chars.head?.map leadClass) same
  simpa only [leadClass_chars, Option.some.injEq] using leads

/-- No answer begins with what closes a list. -/
theorem not_closesItems_chars (a : Answer) (rest : List Char) : ¬ ClosesItems (a.chars ++ rest) := by
  intro closes
  have lead := leadClass_chars a rest
  rcases closes with bracket | blank
  · -- A list is closed by a bracket, or by the blank before the bar; no answer begins with either.
    rw [bracket] at lead
    cases a <;> simp [Answer.lead, leadClass, isNumeral] at lead
  · rw [blank] at lead
    cases a <;> simp [Answer.lead, leadClass, isNumeral] at lead

/-- What closes a list ends a number. -/
theorem ClosesItems.endsNumber (closes : ClosesItems rest) : EndsNumber rest := by
  intro c there
  rcases closes with bracket | blank
  · -- Neither a bracket nor a blank is a digit.
    obtain rfl : ']' = c := by simpa [bracket] using there
    rfl
  · obtain rfl : ' ' = c := by simpa [blank] using there
    rfl

/-- What follows an item of a list ends a number. -/
theorem endsNumber_later (items : List Answer) (closes : ClosesItems rest) :
    EndsNumber (laterChars items ++ rest) := by
  cases items with
  -- After the last item the list is closed, after any other one a comma follows.
  | nil => exact closes.endsNumber
  | cons item items => exact endsNumber_cons _ rfl

/-- The later items of a list can be read off up to what closes the list. -/
theorem laterChars_append_inj (each : ∀ a ∈ items, ReadableAt chars a) (closes : ClosesItems rest)
    (closesToo : ClosesItems other) (same : laterChars items ++ rest = laterChars others ++ other) :
    items = others ∧ rest = other := by
  induction items generalizing others with
  | nil =>
    cases others with
    | nil => exact ⟨rfl, same⟩
    | cons b others =>
      -- A comma does not close a list.
      obtain rfl : rest = ',' :: ' ' :: (b.chars ++ laterChars others ++ other) := same
      simp [ClosesItems] at closes
  | cons a items ih =>
    obtain ⟨first, later⟩ := List.forall_mem_cons.1 each
    cases others with
    | nil =>
      -- The same with the sides exchanged.
      obtain rfl : ',' :: ' ' :: (a.chars ++ laterChars items ++ rest) = other := same
      simp [ClosesItems] at closesToo
    | cons b others =>
      have behind : a.chars ++ (laterChars items ++ rest) = b.chars ++ (laterChars others ++ other) := by
        simpa [laterChars] using same
      -- The first items are read off, because numbers end where the later items begin.
      obtain ⟨rfl, back⟩ := first (endsNumber_later items closes) (endsNumber_later others closesToo) behind
      obtain ⟨rfl, rfl⟩ := ih later back
      exact ⟨rfl, rfl⟩

/-- The items of a list can be read off up to what closes the list. -/
theorem itemsChars_append_inj (each : ∀ a ∈ items, ReadableAt chars a) (closes : ClosesItems rest)
    (closesToo : ClosesItems other) (same : itemsChars items ++ rest = itemsChars others ++ other) :
    items = others ∧ rest = other := by
  cases items with
  | nil =>
    cases others with
    | nil => exact ⟨rfl, same⟩
    | cons b others =>
      -- The bracket behind an empty list would be the beginning of an item.
      obtain rfl : rest = b.chars ++ laterChars others ++ other := same
      rw [List.append_assoc] at closes
      exact (not_closesItems_chars b _ closes).elim
  | cons a items =>
    obtain ⟨first, later⟩ := List.forall_mem_cons.1 each
    cases others with
    | nil =>
      -- What closes the other list would be the beginning of an item.
      obtain rfl : a.chars ++ laterChars items ++ rest = other := same
      rw [List.append_assoc] at closesToo
      exact (not_closesItems_chars a _ closesToo).elim
    | cons b others =>
      have behind : a.chars ++ (laterChars items ++ rest) = b.chars ++ (laterChars others ++ other) := by
        simpa [itemsChars] using same
      obtain ⟨rfl, back⟩ := first (endsNumber_later items closes) (endsNumber_later others closesToo) behind
      obtain ⟨rfl, rfl⟩ := laterChars_append_inj later closes closesToo back
      exact ⟨rfl, rfl⟩

/-- Behind the items of a list stands its closing bracket. -/
theorem chars_list_append (items : List Answer) (rest : List Char) :
    (list items).chars ++ rest = '[' :: (itemsChars items ++ ']' :: rest) := by
  -- The brackets are the list's own, so only the appends have to be shifted.
  simp [chars]

/-- Behind the items of an improper list stands its tail. -/
theorem chars_improper_append (items : List Answer) (tail : Answer) (rest : List Char) :
    (improper items tail).chars ++ rest =
      '[' :: (itemsChars items ++ ' ' :: '|' :: ' ' :: (tail.chars ++ ']' :: rest)) := by
  simp [chars]

/-- An answer that is not made of others can be read off again. -/
theorem readableAt_of_isSimple (simple : a.isSimple = true) : ReadableAt chars a := by
  intro b rest other ends endsToo same
  -- The first character leaves one kind of answer on the other side, too.
  have leads := lead_eq_of_append_eq same
  cases a with
  | nil =>
    cases b with
    -- Fixed texts are the same on both sides, so what is left is the same.
    | nil => exact ⟨rfl, by simpa [chars] using same⟩
    | _ => simp [lead] at leads
  | str s =>
    cases b with
    | str t =>
      -- Strings, numbers and truth values are each read off by their own lemma.
      obtain ⟨rfl, rfl⟩ := readable_quoted s ends endsToo same
      exact ⟨rfl, rfl⟩
    | _ => simp [lead] at leads
  | int i =>
    cases b with
    | int j =>
      obtain ⟨rfl, rfl⟩ := readable_int i ends endsToo same
      exact ⟨rfl, rfl⟩
    | _ => simp [lead] at leads
  | bool x =>
    cases b with
    | bool y =>
      obtain ⟨rfl, rfl⟩ := readable_bool x ends endsToo same
      exact ⟨rfl, rfl⟩
    | _ => simp [lead] at leads
  | unknown =>
    cases b with
    | unknown => exact ⟨rfl, by simpa [chars] using same⟩
    | _ => simp [lead] at leads
  | list items => cases simple
  | improper items tail => cases simple

/-- A list can be read off again if its items can. -/
theorem readableAt_list (each : ∀ a ∈ items, ReadableAt chars a) : ReadableAt chars (.list items) := by
  intro b rest other _ _ same
  -- The other answer begins with a bracket, too, so it is one of the two kinds of lists.
  have leads := lead_eq_of_append_eq same
  rw [chars_list_append] at same
  cases b with
  | list others =>
    rw [chars_list_append] at same
    obtain ⟨rfl, back⟩ := itemsChars_append_inj each (.inl rfl) (.inl rfl) (List.cons.inj same).2
    exact ⟨rfl, (List.cons.inj back).2⟩
  | improper others tail =>
    -- Behind the same items one list is closed, and the other goes on with its tail.
    rw [chars_improper_append] at same
    obtain ⟨_, back⟩ := itemsChars_append_inj each (.inl rfl) (.inr rfl) (List.cons.inj same).2
    simp at back
  | _ => simp [lead] at leads

/-- An improper list can be read off again if its items and its tail can. -/
theorem readableAt_improper {tail : Answer} (each : ∀ a ∈ items, ReadableAt chars a)
    (last : ReadableAt chars tail) : ReadableAt chars (.improper items tail) := by
  intro b rest other _ _ same
  have leads := lead_eq_of_append_eq same
  rw [chars_improper_append] at same
  cases b with
  | list others =>
    -- The other list is closed where this one goes on with its tail.
    rw [chars_list_append] at same
    obtain ⟨_, back⟩ := itemsChars_append_inj each (.inr rfl) (.inl rfl) (List.cons.inj same).2
    simp at back
  | improper others tailToo =>
    rw [chars_improper_append] at same
    obtain ⟨rfl, back⟩ := itemsChars_append_inj each (.inr rfl) (.inr rfl) (List.cons.inj same).2
    -- Both tails stand behind the same bar, and in front of the closing bracket.
    have tails : tail.chars ++ ']' :: rest = tailToo.chars ++ ']' :: other := by simpa using back
    obtain ⟨rfl, closed⟩ := last (endsNumber_cons _ rfl) (endsNumber_cons _ rfl) tails
    exact ⟨rfl, (List.cons.inj closed).2⟩
  | _ => simp [lead] at leads

/-- Answers can be read off again. -/
theorem readable_chars : Readable chars := by
  intro a
  induction a with
  -- By induction on the answer, because the items of a list are read off before the list is.
  | list items each => exact readableAt_list each
  | improper items tail each last => exact readableAt_improper each last
  | _ => exact readableAt_of_isSimple rfl

/-- Answers with the same text are the same answer. -/
theorem answer_text_injective : Function.Injective text := by
  intro a b same
  -- Texts are compared as lists of characters, with nothing behind them.
  exact readable_chars.injective (String.ofList_inj.1 same)

end Relational.Answer
