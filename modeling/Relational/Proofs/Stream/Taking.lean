import Relational.Proofs.Stream.Collect
import Relational.Proofs.Stream.Position

/-! Taking items: what a bounded reading gives, and that it forces nothing behind the last item. -/

namespace Relational

/-- At least some number of items is wanted. -/
def Limit.Covers (count : Nat) : Limit → Prop
  | .all => True
  | .take wanted => count ≤ wanted

namespace Stream

variable {σ α : Type}

/-- Reading the wanted items of a stream gives some items, and forces exactly some suspensions. -/
inductive Reads (meaning : σ → Stream σ α) :
    (wanted : Limit) → (items : List α) → (forcings : Nat) → Stream σ α → Prop where
  /-- Nothing is looked at once no more items are wanted. -/
  | full {s : Stream σ α} : Reads meaning (.take 0) [] 0 s
  | ended {wanted : Limit} (hungry : wanted ≠ .take 0) : Reads meaning wanted [] 0 .empty
  | item {wanted : Limit} {items : List α} {n : Nat} {a : α} {rest : Stream σ α}
      (hungry : wanted ≠ .take 0) (later : Reads meaning wanted.less items n rest) :
      Reads meaning wanted (a :: items) n (.mature a rest)
  | forced {wanted : Limit} {items : List α} {n : Nat} {work : Suspension σ α}
      (hungry : wanted ≠ .take 0) (later : Reads meaning wanted items n (work.resume meaning)) :
      Reads meaning wanted items (n + 1) (.immature work)

/--
Collecting the wanted items of a stream gives some items, and forces exactly some suspensions.

That many forcings are enough, and with fewer there is no answer.
-/
def Collects (meaning : σ → Stream σ α) (wanted : Limit) (items : List α) (n : Nat)
    (s : Stream σ α) : Prop :=
  ∀ fuel, s.collect meaning fuel wanted = if n ≤ fuel then some items else none

/-- Some items stand first in a stream, and exactly some suspensions precede the last of them. -/
structure StartsWith (meaning : σ → Stream σ α) (items : List α) (n : Nat) (s : Stream σ α) :
    Prop where
  /-- Every item stands at the position it is listed at. -/
  there : ∀ i a, items[i]? = some a → ∃ k, ItemAt meaning a i k s
  /-- Without an item no suspension precedes it. -/
  none : items = [] → n = 0
  last : ∀ earlier a, items = earlier ++ [a] → ItemAt meaning a earlier.length n s

variable {meaning : σ → Stream σ α} {wanted : Limit} {s : Stream σ α} {items found : List α}
  {a : α} {n m fuel count : Nat}

section Collecting

/-- At the end of a stream there is nothing to add to what has been found. -/
theorem collectOnto_ended (hungry : wanted ≠ .take 0) :
    collectOnto meaning found fuel wanted .empty = some found.reverse := by
  -- Gathering stops at once, since the stream is at its end.
  have nothing : (.empty : Stream σ α).gather wanted = ([], .ended) := by
    rw [gather]
    exact hungry
  unfold collectOnto
  simp [nothing]

/-- Without fuel a suspension keeps what is wanted from behind it. -/
theorem collectOnto_unforced (hungry : wanted ≠ .take 0) (work : Suspension σ α) :
    collectOnto meaning found 0 wanted (.immature work) = none := by
  -- There is no realized item in front, so nothing is found before the fuel is needed.
  have nothing : (Stream.immature work).gather wanted = ([], .suspended work wanted) := by
    rw [gather]
    exact hungry
  unfold collectOnto
  rw [nothing]

/-- What is read is collected behind what was found before, if there is fuel for its suspensions. -/
theorem Reads.collectOnto_eq (reads : Reads meaning wanted items n s) :
    collectOnto meaning found fuel wanted s =
      if n ≤ fuel then some (found.reverse ++ items) else none := by
  -- Only a forced suspension costs fuel, and what was found before is arbitrary.
  induction reads generalizing found fuel with
  | full => rw [collectOnto_full, if_pos (Nat.zero_le fuel), List.append_nil]
  | ended hungry => rw [collectOnto_ended hungry, if_pos (Nat.zero_le fuel), List.append_nil]
  | item hungry _ ih => simp [collectOnto_item meaning found fuel hungry, ih]
  | forced hungry _ ih =>
    cases fuel with
    | zero => rw [collectOnto_unforced hungry, if_neg (Nat.not_succ_le_zero _)]
    | succ fuel => simp [collectOnto_forced meaning found fuel hungry, ih]

/-- What is collected has been read, through no more forcings than were allowed. -/
theorem exists_reads {all : List α} (collected : collectOnto meaning found fuel wanted s = some all) :
    ∃ items n, Reads meaning wanted items n s ∧ n ≤ fuel := by
  -- Realized items cost no fuel, so the induction is on the fuel first and on the nodes within it.
  induction fuel using Nat.strongRecOn generalizing s found wanted with
  | ind fuel fewer =>
    induction s generalizing found wanted with
    | empty =>
      by_cases hungry : wanted = .take 0
      · -- Nothing was wanted, so nothing was read.
        exact ⟨[], 0, hungry ▸ .full, Nat.zero_le fuel⟩
      · exact ⟨[], 0, .ended hungry, Nat.zero_le fuel⟩
    | mature b rest ih =>
      by_cases hungry : wanted = .take 0
      · exact ⟨[], 0, hungry ▸ .full, Nat.zero_le fuel⟩
      · -- The item was wanted, and joins those that were found before.
        rw [collectOnto_item meaning found fuel hungry] at collected
        obtain ⟨items, n, reads, bound⟩ := ih collected
        exact ⟨b :: items, n, .item hungry reads, bound⟩
    | immature work =>
      by_cases hungry : wanted = .take 0
      · exact ⟨[], 0, hungry ▸ .full, Nat.zero_le fuel⟩
      · cases fuel with
        | zero =>
          -- Without fuel nothing would have been collected.
          rw [collectOnto_unforced hungry] at collected
          cases collected
        | succ fuel =>
          rw [collectOnto_forced meaning found fuel hungry] at collected
          obtain ⟨items, n, reads, bound⟩ := fewer fuel (Nat.lt_succ_self fuel) collected
          exact ⟨items, n + 1, .forced hungry reads, Nat.succ_le_succ bound⟩

/-- Collecting gives what is read, and forces what reading forces. -/
theorem collects_iff_reads : Collects meaning wanted items n s ↔ Reads meaning wanted items n s := by
  -- What is read is collected with just as many forcings.
  have collects : ∀ {others : List α} {k : Nat}, Reads meaning wanted others k s →
      Collects meaning wanted others k s := by
    intro others k reads fuel
    rw [collect, reads.collectOnto_eq]
    rfl
  refine ⟨fun collected => ?_, collects⟩
  -- With exactly enough fuel something is read, and it can only be this.
  have enough := collected n
  rw [if_pos (Nat.le_refl n)] at enough
  obtain ⟨others, k, reads, bound⟩ := exists_reads enough
  have least := collected k
  rw [collects reads k, if_pos (Nat.le_refl k)] at least
  split at least
  · rename_i above
    -- Neither count is below the other, so this is what was read.
    obtain rfl := Option.some.inj least
    obtain rfl := Nat.le_antisymm above bound
    exact reads
  · cases least

/-- There is an answer exactly when what is collected takes no more forcings than were allowed. -/
theorem collect_eq_some_iff :
    s.collect meaning fuel wanted = some items ↔
      ∃ n ≤ fuel, Collects meaning wanted items n s := by
  refine ⟨fun collected => ?_, fun ⟨n, bound, collects⟩ => by rw [collects fuel, if_pos bound]⟩
  -- Something has been read, and collecting it gives nothing else.
  obtain ⟨others, n, reads, bound⟩ := exists_reads collected
  have collects := collects_iff_reads.2 reads
  have same := collects fuel
  rw [if_pos bound, collected] at same
  obtain rfl := Option.some.inj same
  exact ⟨n, bound, collects⟩

end Collecting

section Positions

/-- No items stand first in every stream. -/
theorem startsWith_nil : StartsWith meaning [] 0 s where
  there := nofun
  none := fun _ => rfl
  -- There is no last item that would have to stand somewhere.
  last := fun earlier a split => absurd split.symm (by simp)

/-- A realized item stands in front of those behind it. -/
theorem StartsWith.item (starts : StartsWith meaning items n s) :
    StartsWith meaning (a :: items) n (.mature a s) where
  there := by
    intro i b listed
    -- The item in front is the first one, and the others are one position further.
    cases i with
    | zero =>
      obtain rfl := Option.some.inj listed
      exact ⟨0, .head⟩
    | succ i =>
      obtain ⟨k, there⟩ := starts.there i b listed
      exact ⟨k, .tail there⟩
  none := nofun
  last := by
    intro earlier b split
    cases earlier with
    | nil =>
      -- The item is the only one, and no suspension precedes it.
      obtain ⟨rfl, alone⟩ := List.cons.inj split
      rw [starts.none alone]
      exact .head
    | cons c earlier =>
      -- The last item is behind the first one, with the same suspensions before it.
      obtain ⟨rfl, rest⟩ := List.cons.inj split
      exact .tail (starts.last earlier b rest)

/-- Behind a suspension the same items stand first, and one more suspension precedes them. -/
theorem StartsWith.forced {work : Suspension σ α} (occupied : items ≠ [])
    (starts : StartsWith meaning items n (work.resume meaning)) :
    StartsWith meaning items (n + 1) (.immature work) where
  there := by
    intro i b listed
    -- Every item behind the suspension is met one forcing later.
    obtain ⟨k, there⟩ := starts.there i b listed
    exact ⟨k + 1, .forced there⟩
  none := fun empty => absurd empty occupied
  last := fun earlier b split => .forced (starts.last earlier b split)

/-- The item at the first position of a realized stream is its head. -/
theorem ItemAt.eq_head {b : α} {k : Nat} (there : ItemAt meaning a 0 k (.mature b s)) : a = b := by
  -- The other rule gives positions behind the first.
  cases there with
  | head => rfl

/-- Items up to the last of them, each at its position, are read if one more is wanted than precede it. -/
theorem ItemAt.reads {i : Nat} (last : ItemAt meaning a i n s) {earlier : List α}
    (length : earlier.length = i)
    (there : ∀ j b, earlier[j]? = some b → ∃ k, ItemAt meaning b j k s) :
    Reads meaning (.take (i + 1)) (earlier ++ [a]) n s := by
  have hungry : ∀ i : Nat, Limit.take (i + 1) ≠ .take 0 := nofun
  -- The way to the last item passes all the others.
  induction last generalizing earlier with
  | head =>
    -- No item precedes the last one, so reading it is enough.
    obtain rfl := List.eq_nil_of_length_eq_zero length
    exact .item (hungry 0) .full
  | @tail i n b rest _ ih =>
    obtain ⟨c, earlier, rfl⟩ := List.exists_cons_of_length_eq_add_one length
    -- The first of the earlier items stands where the stream has its head.
    obtain ⟨_, first⟩ := there 0 c rfl
    obtain rfl := first.eq_head
    refine .item (hungry (i + 1)) (ih (Nat.succ.inj length) fun j d listed => ?_)
    obtain ⟨k, there⟩ := there (j + 1) d listed
    cases there with
    | tail later => exact ⟨k, later⟩
  | @forced i n work _ ih =>
    refine .forced (hungry i) (ih length fun j b listed => ?_)
    -- The earlier items are behind the same suspension.
    obtain ⟨k, there⟩ := there j b listed
    cases there with
    | forced later => exact ⟨_, later⟩

/-- A bounded reading gives all items that are wanted, or those that there are if the stream ends before. -/
theorem reads_take_iff :
    Reads meaning (.take count) items n s ↔
      (items.length = count ∧ StartsWith meaning items n s) ∨
        (items.length < count ∧ EndsWith meaning items n s) := by
  refine ⟨fun reads => ?_, fun given => ?_⟩
  · generalize bounded : Limit.take count = wanted at reads
    induction reads generalizing count with
    | full =>
      -- Nothing was wanted, and nothing is what every stream starts with.
      cases bounded
      exact .inl ⟨rfl, startsWith_nil⟩
    | ended hungry =>
      -- Something was wanted that is not there.
      refine .inr ⟨Nat.pos_of_ne_zero fun none => hungry ?_, .empty⟩
      rw [← bounded, none]
    | @item wanted _ _ _ _ hungry _ ih =>
      have positive : count ≠ 0 := fun none => hungry (by rw [← bounded, none])
      -- Behind the item one fewer is wanted.
      have less : Limit.take (count - 1) = wanted.less := by rw [← bounded]; rfl
      rcases ih less with ⟨all, starts⟩ | ⟨fewer, ends⟩
      · exact .inl ⟨by simp only [List.length_cons]; omega, starts.item⟩
      · exact .inr ⟨by simp only [List.length_cons]; omega, .item ends⟩
    | forced hungry _ ih =>
      rcases ih bounded with ⟨all, starts⟩ | ⟨fewer, ends⟩
      · -- Something is wanted, so there is an item for the suspension to precede.
        refine .inl ⟨all, starts.forced fun empty => hungry ?_⟩
        rw [← bounded, ← all, empty]
        rfl
      · exact .inr ⟨fewer, .forced ends⟩
  · rcases given with ⟨rfl, starts⟩ | ⟨fewer, ends⟩
    · rcases List.eq_nil_or_concat items with rfl | ⟨earlier, a, split⟩
      · rw [starts.none rfl]
        exact .full
      · -- The suspensions before the last item are all that have to be forced.
        rw [List.concat_eq_append] at split
        subst split
        rw [List.length_append, List.length_singleton]
        refine (starts.last earlier a rfl).reads rfl fun j b listed => ?_
        refine starts.there j b ?_
        rw [List.getElem?_append_left (List.getElem?_eq_some_iff.1 listed).1, listed]
    · -- More is wanted than there is, so reading goes on to the end.
      induction ends generalizing count with
      | empty => exact .ended fun none => by cases none; cases fewer
      | item _ ih =>
        -- As the item is taken off, one fewer is wanted and one fewer is left.
        simp only [List.length_cons] at fewer
        refine .item (fun none => by cases none; omega) (ih (by omega))
      | forced _ ih => exact .forced (fun none => by cases none; omega) (ih fewer)

end Positions

section Fewer

/-- If more is wanted, the first items are the same, and no fewer suspensions are forced for them. -/
theorem Reads.take (reads : Reads meaning wanted items n s) (covers : wanted.Covers count) :
    ∃ k ≤ n, Reads meaning (.take count) (items.take count) k s := by
  -- The induction is on the longer reading, and the shorter one may be full at any node of it.
  induction reads generalizing count with
  | full =>
    -- Nothing more can be wanted than what was wanted of a full reading.
    obtain rfl := Nat.le_zero.1 covers
    exact ⟨0, Nat.le_refl 0, .full⟩
  | ended =>
    rw [List.take_nil]
    by_cases hungry : Limit.take count = .take 0
    · exact ⟨0, Nat.le_refl 0, hungry ▸ .full⟩
    · exact ⟨0, Nat.le_refl 0, .ended hungry⟩
  | @item wanted items n a rest hungry _ ih =>
    cases count with
    | zero => exact ⟨0, Nat.zero_le n, .full⟩
    | succ count =>
      -- What is left of the larger limit still covers what is left of the smaller one.
      have less : wanted.less.Covers count := by
        cases wanted with
        | all => trivial
        | take wanted => exact Nat.le_sub_one_of_lt covers
      obtain ⟨k, bound, reads⟩ := ih less
      exact ⟨k, bound, .item nofun reads⟩
  | forced _ _ ih =>
    cases count with
    | zero => exact ⟨0, Nat.zero_le _, .full⟩
    | succ count =>
      -- Something is wanted from behind the suspension, so it has to be forced for the shorter reading, too.
      obtain ⟨k, bound, reads⟩ := ih covers
      exact ⟨k + 1, Nat.succ_le_succ bound, .forced nofun reads⟩

end Fewer

section Pulling

/-- An item that is pulled comes first, and reading goes on behind it. -/
theorem Reads.of_pull {rest : Stream σ α} (pulled : s.pull meaning fuel = .item a rest)
    (reads : Reads meaning (.take count) items n rest) :
    ∃ k, Reads meaning (.take (count + 1)) (a :: items) k s := by
  -- Pulling forces one suspension after the other until an item comes up.
  fun_induction pull meaning fuel s with
  | case1 => cases pulled
  | case2 fuel b other =>
    obtain ⟨rfl, rfl⟩ := Pull.item.inj pulled
    exact ⟨n, .item nofun reads⟩
  | case3 => cases pulled
  | case4 fuel work ih =>
    obtain ⟨k, reads⟩ := ih pulled
    exact ⟨k + 1, .forced nofun reads⟩

/-- Where pulling comes to the end, reading finds nothing. -/
theorem Reads.of_finished (finished : s.pull meaning fuel = .finished) :
    ∃ k, Reads meaning (.take (count + 1)) [] k s := by
  -- Each forcing of the pull is one of the reading.
  fun_induction pull meaning fuel s with
  | case1 => exact ⟨0, .ended nofun⟩
  | case2 => cases finished
  | case3 => cases finished
  | case4 fuel work ih =>
    obtain ⟨k, reads⟩ := ih finished
    exact ⟨k + 1, .forced nofun reads⟩

/-- What is pulled item by item is what is read at once. -/
theorem exists_reads_of_pullMany (pulled : s.pullMany meaning fuel count = some items) :
    ∃ n, Reads meaning (.take count) items n s := by
  -- Each pull takes one item, and the next one starts behind it.
  induction count generalizing s items with
  | zero =>
    cases pulled
    exact ⟨0, .full⟩
  | succ count ih =>
    rw [pullMany] at pulled
    cases next : s.pull meaning fuel with
    | finished =>
      -- The end is reached, so no further pull is made.
      rw [next] at pulled
      cases pulled
      exact Reads.of_finished next
    | item a rest =>
      -- The pulled item comes first, and the later pulls start behind it.
      rw [next] at pulled
      obtain ⟨later, found, rfl⟩ := Option.map_eq_some_iff.1 pulled
      obtain ⟨n, reads⟩ := ih found
      exact reads.of_pull next
    | interrupted =>
      -- An interrupted pull gives nothing at all.
      rw [next] at pulled
      cases pulled

/-- The first item that is read is pulled, and what is read behind it takes the remaining forcings. -/
theorem Reads.pull (reads : Reads meaning (.take (count + 1)) items n s) :
    (items = [] ∧ ∀ fuel, n ≤ fuel → s.pull meaning fuel = .finished) ∨
      ∃ a later rest k, items = a :: later ∧ k ≤ n ∧ Reads meaning (.take count) later k rest ∧
        ∀ fuel, n ≤ fuel → s.pull meaning fuel = .item a rest := by
  -- The limit has to stay what it is along the induction.
  generalize bounded : Limit.take (count + 1) = wanted at reads
  induction reads with
  | full => cases bounded
  | ended => exact .inl ⟨rfl, fun fuel _ => by rw [Stream.pull]⟩
  | @item _ items n a rest _ later =>
    subst bounded
    exact .inr ⟨a, items, rest, n, rfl, Nat.le_refl n, later, fun fuel _ => by rw [Stream.pull]⟩
  | @forced _ items n work _ _ ih =>
    -- A forcing is one step of the same pull.
    have step : ∀ {outcome : Pull σ α},
        (∀ fuel, n ≤ fuel → (work.resume meaning).pull meaning fuel = outcome) →
        ∀ fuel, n + 1 ≤ fuel → (Stream.immature work).pull meaning fuel = outcome := by
      intro outcome later fuel enough
      obtain ⟨fuel, rfl⟩ := Nat.exists_eq_add_of_le' (Nat.lt_of_lt_of_le (Nat.succ_pos n) enough)
      rw [Stream.pull]
      exact later fuel (Nat.le_of_succ_le_succ enough)
    rcases ih bounded with ⟨empty, ends⟩ | ⟨a, later, rest, k, first, bound, reads, ends⟩
    · exact .inl ⟨empty, step ends⟩
    · exact .inr ⟨a, later, rest, k, first, Nat.le_succ_of_le bound, reads, step ends⟩

/-- What is read at once can be pulled item by item. -/
theorem Reads.pullMany (reads : Reads meaning (.take count) items n s) (enough : n ≤ fuel) :
    s.pullMany meaning fuel count = some items := by
  -- Every pull may use all of the fuel again, so what is enough for the whole is enough for each.
  induction count generalizing s items n with
  | zero =>
    -- Nothing is wanted, and all rules but one ask for something to be wanted.
    cases reads with
    | full => rfl
    | ended hungry => exact absurd rfl hungry
    | item hungry => exact absurd rfl hungry
    | forced hungry => exact absurd rfl hungry
  | succ count ih =>
    rw [Stream.pullMany]
    rcases reads.pull with ⟨rfl, ends⟩ | ⟨a, later, rest, k, rfl, bound, reads, pulls⟩
    · rw [ends fuel enough]
    · rw [pulls fuel enough]
      exact Option.map_eq_some_iff.2 ⟨later, ih reads (Nat.le_trans bound enough), rfl⟩

end Pulling

end Stream

end Relational
