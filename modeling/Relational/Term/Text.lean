import Relational.Term.Basic
import Relational.Text.Quoted

/-! The text of terms: lists in parentheses, a dot before an improper tail, operators between operands. -/

namespace Relational

/-- The text of a variable on its own. -/
def Var.text (x : Var) : String :=
  "_." ++ toString x.id

/-- The text of a truth value. -/
def boolText (b : Bool) : String :=
  if b then "true" else "false"

/-- Where a term is written: by itself, or as the rest of a list whose parenthesis is still open. -/
inductive Place where
  | alone
  | rest

/-- What comes before the first item of a pair. -/
def Place.opening : Place → Char
  | .alone => '('
  | .rest => ' '

/-- The empty list, which as the rest of a list only closes it. -/
def Place.nothing : Place → List Char
  | .alone => ['(', ')']
  | .rest => [')']

/-- Completes a term that is neither a pair nor the empty list. -/
def Place.closing (chars : List Char) : Place → List Char
  | .alone => chars
  | .rest => [' ', '.', ' '] ++ chars ++ [')']

namespace Term

/-- The characters of a term at a place. -/
def charsAt : Term Var → Place → List Char
  | .unit, place => place.nothing
  | .str s, place => place.closing (quoteChars s)
  | .int i, place => place.closing (toString i.toInt).toList
  | .bool b, place => place.closing (boolText b).toList
  | .var x, place => place.closing x.text.toList
  | .pair a d, place => place.opening :: (a.charsAt .alone ++ d.charsAt .rest)
  | .expr l op r, place =>
    place.closing ('(' :: l.charsAt .alone ++ ' ' :: op.symbol.toList ++ ' ' :: r.charsAt .alone ++ [')'])

/-- The text of a term by itself. -/
def text (t : Term Var) : String :=
  String.ofList (t.charsAt .alone)

end Term

end Relational
