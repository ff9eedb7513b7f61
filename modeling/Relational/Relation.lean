import Relational.Goal.Basic

/-! Relations: those on lists, those of arithmetic, and programs whose relations may refer to each other. -/

namespace Relational

/-- A relation: it holds between its parameters when all goals of the body do. -/
structure Definition where
  params : List String
  body : List Goal

namespace Definition

/-- The states in which a relation holds between the given terms. -/
def apply (d : Definition) (args : List (Term Var)) (s : State) : Stream Job State :=
  (Goal.conj d.body).apply (Env.extend [] d.params args) s

end Definition

/-- A name as a term. -/
def named (name : String) : Term Name :=
  .var (.bound name)

namespace Goal

/-- The list `l` is empty. -/
def nullo (l : Term Name) : Goal :=
  .call (.list .null) [l]

/-- The pair `p` has the components `a` and `d`. -/
def conso (a d p : Term Name) : Goal :=
  .call (.list .cons) [a, d, p]

/-- The first component of `p` is `a`. -/
def caro (p a : Term Name) : Goal :=
  .call (.list .first) [p, a]

/-- The second component of `p` is `d`. -/
def cdro (p d : Term Name) : Goal :=
  .call (.list .rest) [p, d]

/-- The term `p` is a pair. -/
def pairo (p : Term Name) : Goal :=
  .call (.list .pair) [p]

/-- The list `l` has the item `x`. -/
def membero (x l : Term Name) : Goal :=
  .call (.list .member) [x, l]

/-- The list `out` is `l` followed by `t`. -/
def appendo (l t out : Term Name) : Goal :=
  .call (.list .append) [l, t, out]

/-- The list `l` has `n` items. -/
def lengtho (n l : Term Name) : Goal :=
  .call (.list .length) [n, l]

end Goal

open Goal

/-- The definition of each relation on lists. -/
def ListRelation.definition : ListRelation → Definition
  | .null => ⟨["l"], [.eq (named "l") .unit]⟩
  | .cons => ⟨["a", "d", "p"], [.eq (.pair (named "a") (named "d")) (named "p")]⟩
  | .first =>
    ⟨["p", "a"], [freshAll ["d"] [.eq (.pair (named "a") (named "d")) (named "p")]]⟩
  | .rest =>
    ⟨["p", "d"], [freshAll ["a"] [.eq (.pair (named "a") (named "d")) (named "p")]]⟩
  | .pair =>
    ⟨["p"], [freshAll ["a", "d"] [.eq (.pair (named "a") (named "d")) (named "p")]]⟩
  | .member =>
    ⟨["x", "l"],
      [freshAll ["head", "tail"]
        [.eq (named "l") (.pair (named "head") (named "tail")),
          disj [.eq (named "x") (named "head"), membero (named "x") (named "tail")]]]⟩
  | .append =>
    ⟨["l", "t", "out"],
      [disj
        [conj [.eq (named "l") .unit, .eq (named "t") (named "out")],
          freshAll ["a", "d", "res"]
            [.eq (named "l") (.pair (named "a") (named "d")),
              .eq (named "out") (.pair (named "a") (named "res")),
              appendo (named "d") (named "t") (named "res")]]]⟩
  | .length =>
    ⟨["n", "l"],
      [disj
        [conj [.eq (named "l") .unit, .eq (named "n") (.int 0)],
          freshAll ["head", "tail", "m"]
            [.eq (named "l") (.pair (named "head") (named "tail")),
              .eq (named "n") (.expr (named "m") .add (.int 1)),
              lengtho (named "m") (named "tail")]]]⟩

namespace Goal

/-- The sum of `a` and `b` is `c`. -/
def pluso (a b c : Term Name) : Goal :=
  .eq (.expr a .add b) c

/-- The difference of `a` and `b` is `c`. -/
def minuso (a b c : Term Name) : Goal :=
  .eq (.expr a .sub b) c

/-- The product of `a` and `b` is `c`. -/
def timeso (a b c : Term Name) : Goal :=
  .eq (.expr a .mul b) c

/-- The quotient of `a` and `b`, cut off toward zero, is `c`. -/
def divo (a b c : Term Name) : Goal :=
  .eq (.expr a .div b) c

/-- The integer `b` is one more than `a`. -/
def succo (a b : Term Name) : Goal :=
  pluso a (.int 1) b

end Goal

/-- The relations a program defines itself, by name. -/
structure Program where
  definitions : List (String × Definition)

namespace Program

/-- The program with no relations but those on lists. -/
def standard : Program :=
  ⟨[]⟩

/-- The definition of a relation, if there is one. -/
def definition? (p : Program) : RelationName → Option Definition
  | .list relation => some relation.definition
  | .named name => p.definitions.lookup name

/-- The stream that a job stands for; a relation without definition holds nowhere. -/
def unfold (p : Program) : Job → Stream Job State
  | .never => .immature (.source .never)
  | .always s => .mature s (.immature (.source (.always s)))
  | .call relation args s =>
    match p.definition? relation with
    | some d => d.apply args s
    | none => .empty

end Program

end Relational
