import Relational.Database
import Relational.Demo.Lists

/-! A demonstration of tables of facts: which food goes with which drink, and what it costs. -/

namespace Relational.Demo

/-- Facts about food and drink. -/
def meals : Database :=
  let facts : List (String × List (Term Var)) :=
    [("food", [.str "Beef"]),
      ("food", [.str "Fish"]),
      ("food", [.str "Hamburger"]),
      ("food", [.str "Pizza"]),
      ("food", [.str "Salad"]),
      ("food", [.str "Stone soup"]),
      ("food", [.str "Veggies"]),
      ("drink", [.str "Beer"]),
      ("drink", [.str "Red wine"]),
      ("drink", [.str "Water"]),
      ("drink", [.str "White wine"]),
      ("goes_well_with", [.str "Beef", .str "Beer"]),
      ("goes_well_with", [.str "Beef", .str "Red wine"]),
      ("goes_well_with", [.str "Fish", .str "White wine"]),
      ("goes_well_with", [.str "Hamburger", .str "Beer"]),
      ("goes_well_with", [.str "Pizza", .str "Red wine"]),
      ("goes_well_with", [.str "Stone soup", .str "Water"]),
      ("goes_well_with", [.str "Veggies", .str "White wine"]),
      ("is_vegetarian", [.str "Beef", .bool false]),
      ("is_vegetarian", [.str "Fish", .str "some say so"]),
      ("is_vegetarian", [.str "Hamburger", .str "canbe"]),
      ("is_vegetarian", [.str "Pizza", .str "canbe"]),
      ("is_vegetarian", [.str "Salad", .bool true]),
      ("is_vegetarian", [.str "Stone soup", .bool true]),
      ("is_vegetarian", [.str "Veggies", .bool true]),
      ("price", [.str "Beef", .int 24]),
      ("price", [.str "Fish", .int 18]),
      ("price", [.str "Hamburger", .int 9]),
      ("price", [.str "Pizza", .int 11]),
      ("price", [.str "Salad", .int 7]),
      ("price", [.str "Stone soup", .int 1]),
      ("price", [.str "Veggies", .int 8])]
  facts.foldl (fun db (table, fact) => db.insert table fact) .empty

/-- The text of rows: a single answer by itself, several answers as a list. -/
def rowsText (found : List Row) : String :=
  let rowText (row : Row) :=
    match row with
    | [single] => single.text
    | answers => (Answer.list answers).text
  ", ".intercalate (found.map rowText)

/-- What the demonstration of tables prints. -/
def mealLines : List String :=
  let goesWith (food drink : Term Name) := meals.query "goes_well_with" [food, drink]
  let vegetarian (food : Term Name) := meals.query "is_vegetarian" [food, .bool true]
  let answers (names : List String) (goals : List Goal) :=
    rowsText (rows .standard .all names goals)
  let q := named "q"
  ["All the food we like: " ++ answers ["q"] [meals.query "food" [q]],
    "Vegetarian food: " ++ answers ["q"] [vegetarian q],
    "Vegetarian food that goes well with white wine: "
      ++ answers ["q"] [vegetarian q, goesWith q (.str "White wine")],
    "Food that goes well with wine: "
      ++ answers ["q"] [.disj [goesWith q (.str "Red wine"), goesWith q (.str "White wine")]],
    "Beer food for two: "
      ++ answers ["f", "total"]
        [goesWith (named "f") (.str "Beer"),
          .freshAll ["p"]
            [meals.query "price" [named "f", named "p"],
              .eq (named "total") (.expr (named "p") .mul (.int 2))]]]

end Relational.Demo
