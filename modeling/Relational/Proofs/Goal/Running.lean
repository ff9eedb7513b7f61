import Relational.Proofs.Goal.Starting
import Relational.Proofs.Stream.Taking

/-! Running: bounded, unbounded and lazy runs of a goal read the same stream, and give the same rows. -/

namespace Relational.Program

open Relational.Stream (Collects EndsWith Reads StartsWith)

variable {p : Program} {names : List String} {g : Goal} {limit : Limit} {rows : List Row}
  {fuel count : Nat}

/-- The stream that a run for fresh variables of the given names reads. -/
def searched (names : List String) (g : Goal) : Stream Job State :=
  g.apply (Env.extend [] names (State.empty.freshVars names.length).1)
    (State.empty.freshVars names.length).2

/-- The row that a run makes of a state it finds. -/
def rowOf (names : List String) (s : State) : Row :=
  s.reifyAll (State.empty.freshVars names.length).1

/-- Some number of rows, pulled one by one, are the given ones, once each pull has fuel enough. -/
def PullsFirst (p : Program) (count : Nat) (names : List String) (g : Goal) (rows : List Row) :
    Prop :=
  ∃ least, ∀ fuel, least ≤ fuel → p.pullRows? fuel count names g = some rows

/-- Reading the searched stream gives the rows that are wanted. -/
def ReadsRows (p : Program) (limit : Limit) (names : List String) (g : Goal) (rows : List Row) :
    Prop :=
  ∃ states n, Reads p.unfold limit states n (searched names g) ∧ states.map (rowOf names) = rows

/-- A run collects states and makes a row of each. -/
theorem run?_eq_map : p.run? fuel limit names g =
    ((searched names g).collect p.unfold fuel limit).map (List.map (rowOf names)) :=
  rfl

/-- A lazy run pulls states and makes a row of each. -/
theorem pullRows?_eq_map : p.pullRows? fuel count names g =
    ((searched names g).pullMany p.unfold fuel count).map (List.map (rowOf names)) :=
  rfl

/-- A run ends with the rows that reading the searched stream gives. -/
theorem exists_run?_iff :
    (∃ least, ∀ fuel, least ≤ fuel → p.run? fuel limit names g = some rows) ↔
      p.ReadsRows limit names g rows := by
  refine ⟨fun ⟨least, runs⟩ => ?_, fun ⟨states, n, reads, same⟩ => ⟨n, fun fuel enough => ?_⟩⟩
  · -- What a run gives with the least fuel has been read off the stream.
    have ended := runs least (Nat.le_refl least)
    rw [run?_eq_map] at ended
    obtain ⟨states, collected, same⟩ := Option.map_eq_some_iff.1 ended
    obtain ⟨n, _, collects⟩ := Stream.collect_eq_some_iff.1 collected
    exact ⟨states, n, Stream.collects_iff_reads.1 collects, same⟩
  · rw [run?_eq_map, Stream.collects_iff_reads.2 reads fuel, if_pos enough, Option.map_some, same]

/-- A lazy run gives the rows that reading the searched stream gives. -/
theorem pullsFirst_iff : p.PullsFirst count names g rows ↔
    p.ReadsRows (.take count) names g rows := by
  refine ⟨fun ⟨least, pulls⟩ => ?_, fun ⟨states, n, reads, same⟩ => ⟨n, fun fuel enough => ?_⟩⟩
  · -- Pulling asks for one state after another, and each time goes on where it stopped.
    have ended := pulls least (Nat.le_refl least)
    rw [pullRows?_eq_map] at ended
    obtain ⟨states, pulled, same⟩ := Option.map_eq_some_iff.1 ended
    obtain ⟨n, reads⟩ := Stream.exists_reads_of_pullMany pulled
    exact ⟨states, n, reads, same⟩
  · rw [pullRows?_eq_map, reads.pullMany enough, Option.map_some, same]

/-- The first rows are the same for all who want at least those. -/
theorem ReadsRows.take (reads : p.ReadsRows limit names g rows) (covers : limit.Covers count) :
    p.ReadsRows (.take count) names g (rows.take count) := by
  obtain ⟨states, n, reads, rfl⟩ := reads
  -- The states are read from the same stream, and rows are made one by one.
  obtain ⟨k, _, first⟩ := reads.take covers
  exact ⟨states.take count, k, first, List.map_take⟩

/--
Bounded, unbounded and lazy runs agree, and a bounded one does no more than it has to.

Collecting some number of items from a stream gives the items that stand first in it, and forces exactly
the suspensions that precede the last of them; if the stream has fewer items it gives them all, and
forces all suspensions. So a bounded run gives the rows that a lazy one gives when it is asked as often,
they come first in every longer run, and they are all there are if there are no more. A goal that
introduces the variables itself is run to the same effect.
-/
theorem runs_agree :
    (∀ (σ α : Type) (meaning : σ → Stream σ α) (s : Stream σ α) (count : Nat),
      (∀ items n, Collects meaning (.take count) items n s ↔
        (items.length = count ∧ StartsWith meaning items n s) ∨
          (items.length < count ∧ EndsWith meaning items n s)) ∧
      ∀ fuel items, s.collect meaning fuel (.take count) = some items ↔
        ∃ n ≤ fuel, Collects meaning (.take count) items n s) ∧
    ∀ (p : Program) (names : List String) (g : Goal) (count more : Nat), count ≤ more →
      (∀ rows, p.RunsFirst count names g rows ↔ p.PullsFirst count names g rows) ∧
      (∀ rows, p.RunsFirst more names g rows → p.RunsFirst count names g (rows.take count)) ∧
      (∀ rows, p.RunsTo names g rows → rows.length ≤ count → p.RunsFirst count names g rows) ∧
      ∀ fuel limit, p.runGoal? fuel limit names.length (.fresh names g) = p.run? fuel limit names g := by
  refine ⟨fun σ α meaning s count => ⟨fun items n => ?_, fun fuel items => Stream.collect_eq_some_iff⟩,
    fun p names g count more less => ⟨fun rows => ?_, fun rows runs => ?_, fun rows runs few => ?_,
      fun fuel limit => ?_⟩⟩
  · exact Stream.collects_iff_reads.trans Stream.reads_take_iff
  · exact exists_run?_iff.trans pullsFirst_iff.symm
  · exact exists_run?_iff.2 ((exists_run?_iff.1 runs).take less)
  · -- Nothing is cut off, and a run for everything wants at least that many rows.
    have first : p.ReadsRows (.take count) names g (rows.take count) :=
      (exists_run?_iff.1 runs).take trivial
    rw [List.take_of_length_le few] at first
    exact exists_run?_iff.2 first
  · -- The goal allocates the variables that the run would have allocated, in the same state.
    simp only [runGoal?, run?, states?, Goal.apply, State.freshVars, State.empty, Nat.zero_add]

/-- Two alternatives give two rows, however many are asked for at once, and the first of them alone. -/
theorem runs_agree_two :
    let g := Goal.disj [.eq (named "q") (.int 1), .eq (named "q") (.int 2)]
    standard.RunsTo ["q"] g [[.int 1], [.int 2]] ∧
      standard.PullsFirst 2 ["q"] g [[.int 1], [.int 2]] ∧ standard.RunsFirst 1 ["q"] g [[.int 1]] := by
  intro g
  -- Each alternative is suspended once, and both have been forced before the first row.
  have reads : standard.ReadsRows .all ["q"] g [[.int 1], [.int 2]] :=
    ⟨_, 2, .forced nofun (.forced nofun (.item nofun (.item nofun (.ended nofun)))), rfl⟩
  have all : standard.RunsTo ["q"] g [[.int 1], [.int 2]] := exists_run?_iff.2 reads
  obtain ⟨lazy, _, whole, _⟩ := runs_agree.2 standard ["q"] g 2 3 (by decide)
  obtain ⟨_, fewer, _, _⟩ := runs_agree.2 standard ["q"] g 1 2 (by decide)
  have bounded := whole _ all (by decide)
  exact ⟨all, (lazy _).1 bounded, fewer _ bounded⟩

end Relational.Program
