import Relational.Answer.Text

/-! Reading answers as plain values, with an error for an answer of another shape. -/

namespace Relational

/-- A shape an answer can be read as. -/
inductive Shape where
  | integer
  | boolean
  | text
  | properList
  deriving DecidableEq

/-- How a shape is named in an error. -/
def Shape.phrase : Shape → String
  | .integer => "an integer"
  | .boolean => "a boolean"
  | .text => "a string"
  | .properList => "a proper list"

/-- An answer was found that does not have the expected shape. -/
structure ShapeError where
  expected : Shape
  found : Answer

/-- The sentence that reports a shape error. -/
def ShapeError.message (e : ShapeError) : String :=
  "expected " ++ e.expected.phrase ++ ", found `" ++ e.found.text ++ "`"

namespace Answer

/-- Reads an integer. -/
def toInt : Answer → Except ShapeError Int64
  | .int i => .ok i
  | found => .error ⟨.integer, found⟩

/-- Reads a truth value. -/
def toBool : Answer → Except ShapeError Bool
  | .bool b => .ok b
  | found => .error ⟨.boolean, found⟩

/-- Reads a text. -/
def toText : Answer → Except ShapeError String
  | .str s => .ok s
  | found => .error ⟨.text, found⟩

/-- Reads the items of a proper list. -/
def toItems : Answer → Except ShapeError (List Answer)
  | .nil => .ok []
  | .list items => .ok items
  | found => .error ⟨.properList, found⟩

end Answer

end Relational
