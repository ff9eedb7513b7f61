import Relational.Demo.Meals

/-! The command line: prints the demonstration that is asked for. -/

/-- Prints the demonstration of lists, or that of tables for the argument `meals`. -/
def main (args : List String) : IO Unit := do
  let lines := if args = ["meals"] then Relational.Demo.mealLines else Relational.Demo.listLines
  for line in lines do
    IO.println line
