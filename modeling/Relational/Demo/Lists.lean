import Relational.Run

/-! A demonstration of relations on lists, one of them defined here: reversal. -/

namespace Relational.Demo

/-- The list `out` is `l` reversed. -/
def reverso (l out : Term Name) : Goal :=
  .call (.named "reverso") [l, out]

/-- The definition of reversal: the first item goes behind the reversed rest. -/
def reversal : Definition :=
  ⟨["l", "out"],
    [.disj
      [.conj [.eq (named "l") .unit, .eq (named "out") .unit],
        .freshAll ["head", "tail", "rev"]
          [.eq (named "l") (.pair (named "head") (named "tail")),
            reverso (named "tail") (named "rev"),
            .appendo (named "rev") (.list [named "head"]) (named "out")]]]⟩

/-- The program of this demonstration. -/
def listProgram : Program :=
  ⟨[("reverso", reversal)]⟩

/-- How many forcings each search of a demonstration may take. -/
def patience : Nat :=
  100000

/-- The rows of a search for all goals; the searches here are well within their patience. -/
def rows (p : Program) (limit : Limit) (names : List String) (goals : List Goal) : List Row :=
  (p.run? patience limit names (.conj goals)).getD []

/-- The line of each row that has a single answer. -/
def singleLines (label : String) (found : List Row) : List String :=
  found.filterMap fun row =>
    match row with
    | [a] => some (label ++ a.text)
    | _ => none

/-- The line of each row that has two answers. -/
def doubleLines (line : Answer → Answer → String) (found : List Row) : List String :=
  found.filterMap fun row =>
    match row with
    | [a, b] => some (line a b)
    | _ => none

/-- What the demonstration of lists prints. -/
def listLines : List String :=
  let splits := rows listProgram .all ["front", "back"]
    [.appendo (named "front") (named "back") (.list [.int 1, .int 2, .int 3])]
  let reversed := rows listProgram .all ["q"]
    [reverso (.list [.str "a", .str "b", .str "c"]) (named "q")]
  let length := rows listProgram .all ["n"]
    [.lengtho (named "n") (.list [.unit, .unit, .unit, .unit])]
  let containing := rows listProgram (.take 3) ["q"] [.membero (.str "pea") (named "q")]
  let numbers := rows listProgram .all ["x", "y"]
    [.pluso (named "x") (.int 3) (.int 10), .timeso (named "x") (named "y") (.int 42)]
  doubleLines (fun front back => front.text ++ " ++ " ++ back.text) splits
    ++ singleLines "reversed: " (reversed.take 1)
    ++ singleLines "length: " (length.take 1)
    ++ singleLines "a list containing \"pea\": " containing
    ++ doubleLines (fun x y => "x = " ++ x.text ++ ", y = " ++ y.text) (numbers.take 1)

end Relational.Demo
