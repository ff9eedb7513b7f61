import Relational.Answer.Basic

/-! The text of answers: one for readers, and one that names the kind of every value. -/

namespace Relational

namespace Answer

mutual

/-- The characters of an answer, with lists in brackets and a bar before an improper tail. -/
def chars : Answer → List Char
  | .nil => ['n', 'i', 'l']
  | .str s => quoteChars s
  | .int i => (toString i.toInt).toList
  | .bool b => (boolText b).toList
  | .list items => '[' :: itemsChars items ++ [']']
  | .improper items tail => '[' :: itemsChars items ++ [' ', '|', ' '] ++ tail.chars ++ [']']
  | .unknown => ['?']

/-- The characters of list items, separated by commas. -/
def itemsChars : List Answer → List Char
  | [] => []
  | item :: rest => item.chars ++ laterChars rest

/-- The characters of the items behind the first one. -/
def laterChars : List Answer → List Char
  | [] => []
  | item :: rest => ',' :: ' ' :: (item.chars ++ laterChars rest)

end

/-- The text of an answer. -/
def text (a : Answer) : String :=
  String.ofList a.chars

mutual

/-- The text of an answer in which every value stands behind the name of its kind. -/
def taggedText : Answer → String
  | .nil => "Nil"
  | .str s => "Str(" ++ quoteText s ++ ")"
  | .int i => "Int(" ++ toString i.toInt ++ ")"
  | .bool b => "Bool(" ++ boolText b ++ ")"
  | .list items => "List([" ++ ", ".intercalate (taggedTexts items) ++ "])"
  | .improper items tail =>
    "Improper([" ++ ", ".intercalate (taggedTexts items) ++ "], " ++ tail.taggedText ++ ")"
  | .unknown => "Unknown"

/-- The tagged texts of list items. -/
def taggedTexts : List Answer → List String
  | [] => []
  | item :: rest => item.taggedText :: taggedTexts rest

end

end Answer

/-- The text of a row of answers. -/
def Row.text (row : Row) : String :=
  "; ".intercalate (row.map Answer.text)

end Relational
