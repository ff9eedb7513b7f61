import Relational.Stream.Basic

/-! Reading streams as far as is wanted: collecting items, pulling them one by one, and recording every step. -/

namespace Relational

/-- A bound on the number of wanted items. -/
inductive Limit where
  | all
  | take (count : Nat)
  deriving DecidableEq

namespace Limit

/-- What is still wanted once one more item has been found. -/
def less : Limit → Limit
  | .all => .all
  | .take count => .take (count - 1)

/-- The limit a bound stands for, where no bound asks for everything. -/
def ofBound : Option Nat → Limit
  | some count => .take count
  | none => .all

/-- The text of a limit. -/
def text : Limit → String
  | .all => "All"
  | .take count => "Take(" ++ toString count ++ ")"

end Limit

/-- Why the reading of a realized run of items came to a stop. -/
inductive Stop (σ α : Type) where
  /-- As many items as were wanted have been read. -/
  | full
  /-- The stream has no more items. -/
  | ended
  /-- The next item, if there is one, is behind suspended work. -/
  | suspended (work : Suspension σ α) (wanted : Limit)

/-- A step of reading a stream: an item, a forced suspension, or the end. -/
inductive Step where
  | item
  | force
  | finish
  deriving DecidableEq

/-- The letter that records a step. -/
def Step.letter : Step → Char
  | .item => 'v'
  | .force => 'f'
  | .finish => 'e'

/-- What reading a stream has shown: its steps, and the items among them. -/
structure Exploration (α : Type) where
  steps : List Step
  items : List α

/-- The letters of all steps, in order. -/
def Exploration.trace {α : Type} (seen : Exploration α) : String :=
  String.ofList (seen.steps.map Step.letter)

/-- What one request for the next item of a stream gives. -/
inductive Pull (σ α : Type) where
  | finished
  | item (head : α) (rest : Stream σ α)
  /-- The next item was not reached within the allowed forcings. -/
  | interrupted

namespace Stream

variable {σ α : Type}

/-- The realized items in front of a stream, as many as are wanted, and why there are no more. -/
def gather : Stream σ α → Limit → List α × Stop σ α
  | _, .take 0 => ([], .full)
  | .empty, _ => ([], .ended)
  | .mature a rest, wanted =>
    let (items, stop) := rest.gather wanted.less
    (a :: items, stop)
  | .immature work, wanted => ([], .suspended work wanted)

/--
The wanted items of a stream behind those already `found`, the latest of them first.

There is no answer if the items take more than `fuel` forcings.
-/
def collectOnto (unfold : σ → Stream σ α) (found : List α) :
    (fuel : Nat) → Limit → Stream σ α → Option (List α)
  | fuel, wanted, s =>
    match s.gather wanted, fuel with
    | (items, .suspended work wanted), fuel + 1 =>
      collectOnto unfold (items.reverse ++ found) fuel wanted (work.resume unfold)
    | (_, .suspended _ _), 0 => none
    | (items, _), _ => some (found.reverse ++ items)

/-- The wanted items of a stream, or nothing if they take more than `fuel` forcings. -/
def collect (unfold : σ → Stream σ α) (fuel : Nat) (wanted : Limit) (s : Stream σ α) :
    Option (List α) :=
  s.collectOnto unfold [] fuel wanted

/-- Every step of reading the wanted items of a stream, through at most `fuel` forcings. -/
def explore (unfold : σ → Stream σ α) : (fuel : Nat) → Limit → Stream σ α → Exploration α
  | fuel, wanted, s =>
    match s.gather wanted, fuel with
    | (items, .full), _ => ⟨items.map fun _ => .item, items⟩
    | (items, .ended), _ => ⟨items.map (fun _ => .item) ++ [.finish], items⟩
    | (items, .suspended _ _), 0 => ⟨items.map fun _ => .item, items⟩
    | (items, .suspended work wanted), fuel + 1 =>
      let later := explore unfold fuel wanted (work.resume unfold)
      ⟨items.map (fun _ => .item) ++ .force :: later.steps, items ++ later.items⟩

/-- The next item of a stream and what is behind it, reached through at most `fuel` forcings. -/
def pull (unfold : σ → Stream σ α) : (fuel : Nat) → Stream σ α → Pull σ α
  | _, .empty => .finished
  | _, .mature a rest => .item a rest
  | 0, .immature _ => .interrupted
  | fuel + 1, .immature work => pull unfold fuel (work.resume unfold)

/-- The items of up to `count` pulls, each of them allowed `fuel` forcings. -/
def pullMany (unfold : σ → Stream σ α) (fuel : Nat) : (count : Nat) → Stream σ α → Option (List α)
  | 0, _ => some []
  | count + 1, s =>
    match s.pull unfold fuel with
    | .finished => some []
    | .item a rest => (pullMany unfold fuel count rest).map (a :: ·)
    | .interrupted => none

end Stream

end Relational
