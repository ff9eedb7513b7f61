import Relational.Proofs.Stream.Interleaving
import Relational.Stream.Sweep

/-! Mapped streams: every item comes from one place in the image of one item, and none is left out. -/

namespace Relational.Stream

variable {σ τ ρ α β : Type}

/--
A way to replace every item of a stream by the stream `g` gives for it, as a relation.

An item is replaced by its image, joined with what the rest becomes, and suspended work by work that
resumes to what the resumed work becomes. The items may be of another kind than those of the images.
-/
structure Mapping (meaning : σ → Stream σ α) (below : τ → Stream τ β) (g : β → Stream σ α)
    (R : Stream τ β → Stream σ α → Prop) : Prop where
  unique : ∀ {s t u}, R s t → R s u → t = u
  empty : ∀ {t}, R .empty t → t = .empty
  mature : ∀ {a s t}, R (.mature a s) t → ∃ rest, R s rest ∧ t = g a ++ rest
  immature : ∀ {work t}, R (.immature work) t →
    ∃ mapped, R (work.resume below) (mapped.resume meaning) ∧ t = .immature mapped

/-- Streams are mapped to streams of the same kind. -/
theorem mapping_flatMap (meaning : σ → Stream σ α) (g : α → Stream σ α) :
    Mapping meaning meaning g fun s t => t = s.flatMap g where
  unique := fun first second => first.trans second.symm
  empty := fun mapped => mapped
  mature := fun {_ s _} mapped => ⟨s.flatMap g, rfl, mapped⟩
  immature := fun {work _} mapped => ⟨.bind work g, rfl, mapped⟩

/-- Streams are mapped to streams of another kind, whose jobs go on with the mapping. -/
theorem mapping_sweepFlatMap (below : τ → Stream τ β) (g : β → Stream (Suspension τ β ⊕ ρ) α)
    (own : ρ → Stream (Suspension τ β ⊕ ρ) α) :
    Mapping (mappingJob below g own) below g
      fun s t => t = s.sweepFlatMap (fun work => .source (.inl work)) g where
  unique := fun first second => first.trans second.symm
  empty := fun mapped => mapped
  mature := fun {a s _} mapped =>
    ⟨s.sweepFlatMap (fun work => .source (.inl work)) g, rfl,
      mapped.trans (sweepFlatMap_mature _ g a s)⟩
  -- The work is left to a job, and the job maps what the work resumes to.
  immature := fun {work _} mapped => ⟨.source (.inl work), rfl, mapped⟩

/-- Lazy lists that give the same stream are the same. -/
theorem ofLazyList_injective {items others : LazyList β}
    (same : (ofLazyList items : Stream τ β) = ofLazyList others) : items = others := by
  -- Different nodes of the lists are different nodes of the streams.
  induction items generalizing others with
  | nil =>
    cases others with
    | nil => rfl
    | _ => cases same
  -- Items are compared one by one.
  | cons a rest ih =>
    cases others with
    | cons b other =>
      obtain ⟨rfl, tails⟩ := Stream.mature.inj same
      rw [ih tails]
    | _ => cases same
  | delay rest ih =>
    cases others with
    | delay other =>
      -- Delayed rests are equal as functions, and each of them has one value.
      have delayed := congrFun (Suspension.delay.inj (Stream.immature.inj same)) ()
      exact congrArg LazyList.delay (funext fun _ => ih () delayed)
    | _ => cases same

/-- Lazy lists are mapped to streams of any kind. -/
theorem mapping_lazyList (meaning : σ → Stream σ α) (g : β → Stream σ α) :
    Mapping meaning noJobs g fun s t => ∃ items, s = ofLazyList items ∧ t = items.flatMap g where
  unique := by
    -- The stream determines the lazy list, and that determines what it is mapped to.
    rintro s t u ⟨items, rfl, rfl⟩ ⟨others, same, rfl⟩
    rw [ofLazyList_injective same]
  empty := by
    rintro t ⟨items, same, rfl⟩
    -- Only the empty list is read as a stream without nodes.
    cases items with
    | nil => rfl
    | _ => cases same
  mature := by
    rintro a s t ⟨items, same, rfl⟩
    -- Only a list with a realized item in front is read as a realized stream.
    cases items with
    | cons b rest =>
      obtain ⟨rfl, rfl⟩ := Stream.mature.inj same
      exact ⟨rest.flatMap g, ⟨rest, rfl, rfl⟩, rfl⟩
    | _ => cases same
  immature := by
    rintro work t ⟨items, same, rfl⟩
    -- Only a delayed list is read as a suspended stream, and its rest is mapped later.
    cases items with
    | delay rest =>
      obtain rfl := Stream.immature.inj same
      exact ⟨.delay fun _ => (rest ()).flatMap g, ⟨rest (), rfl, rfl⟩, rfl⟩
    | _ => cases same

/--
Where an item of a mapped stream comes from: the position of an item below, and one in its image.

The rules follow the way into the stream below, whose images are joined from the right.
-/
inductive Source (meaning : σ → Stream σ α) (below : τ → Stream τ β) (g : β → Stream σ α)
    (R : Stream τ β → Stream σ α → Prop) : Stream τ β → (position : Nat) → Nat × Nat → Prop where
  | first {m j : Nat} {a : β} {s : Stream τ β} {rest : Stream σ α} (related : R s rest)
      (origin : Origin meaning (g a) rest m (.inl j)) :
      Source meaning below g R (.mature a s) m (0, j)
  /-- An item that is not from the first image comes from one of those behind it. -/
  | later {m l i j : Nat} {a : β} {s : Stream τ β} {rest : Stream σ α} (related : R s rest)
      (origin : Origin meaning (g a) rest m (.inr l))
      (source : Source meaning below g R s l (i, j)) :
      Source meaning below g R (.mature a s) m (i + 1, j)
  | forced {m : Nat} {o : Nat × Nat} {work : Suspension τ β}
      (source : Source meaning below g R (work.resume below) m o) :
      Source meaning below g R (.immature work) m o

variable {meaning : σ → Stream σ α} {below : τ → Stream τ β} {g : β → Stream σ α}
variable {R : Stream τ β → Stream σ α → Prop} {a : β} {b : α} {s : Stream τ β} {t : Stream σ α}
variable {i j k l m n : Nat} {o p : Nat × Nat}

/-- An item of a mapped stream comes from one place only. -/
theorem Source.unique (mapping : Mapping meaning below g R)
    (source : Source meaning below g R s m o) (again : Source meaning below g R s m p) : o = p := by
  -- What the rest is taken to is unique, so both derivations ask for the same origin.
  induction source generalizing p with
  | first related origin =>
    -- The first image is the source of both, and there each position has one origin.
    cases again with
    | first relatedToo other =>
      obtain rfl := mapping.unique related relatedToo
      obtain rfl := Sum.inl.inj (origin.unique other)
      rfl
    | later relatedToo other _ =>
      obtain rfl := mapping.unique related relatedToo
      cases origin.unique other
  | later related origin _ ih =>
    -- The source is behind the first image for both, and there the induction applies.
    cases again with
    | first relatedToo other =>
      obtain rfl := mapping.unique related relatedToo
      cases origin.unique other
    | later relatedToo other source =>
      obtain rfl := mapping.unique related relatedToo
      obtain rfl := Sum.inr.inj (origin.unique other)
      obtain ⟨rfl, rfl⟩ := Prod.mk.inj (ih source)
      rfl
  | forced _ ih =>
    cases again with
    | forced source => exact ih source

/-- Items from the image of one item keep their order. -/
theorem Source.lt (mapping : Mapping meaning below g R)
    (source : Source meaning below g R s m o) (other : Source meaning below g R s n p)
    (before : m < n) (same : o.1 = p.1) : o.2 < p.2 := by
  -- The images behind the first are joined among themselves before the first one joins them.
  induction source generalizing n p with
  | first related origin =>
    -- Both items come from the first image, where joining keeps the order.
    cases other with
    | first relatedToo next =>
      obtain rfl := mapping.unique related relatedToo
      exact origin.inOrder next before
    | later _ _ _ => cases same
  | later related origin _ ih =>
    -- Both come from images behind the first, whose items were in order before they were joined.
    cases other with
    | first _ _ => cases same
    | later relatedToo next source =>
      obtain rfl := mapping.unique related relatedToo
      have inImage := ih source (origin.inOrder next before) (by simpa using same)
      exact inImage
  | forced _ ih =>
    cases other with
    | forced source => exact ih source before same

/-- An item of a mapped stream stands in the image of an item, and both are no further away there. -/
theorem ItemAt.of_mapping (mapping : Mapping meaning below g R) (related : R s t)
    (there : ItemAt meaning b m n t) :
    ∃ o, Source meaning below g R s m o ∧ ∃ a k l, ItemAt below a o.1 k s ∧
      ItemAt meaning b o.2 l (g a) ∧ k ≤ n ∧ l ≤ n := by
  -- Forcing the mapped stream forces the one below it, with one forcing less to go.
  induction n using Nat.strongRecOn generalizing s t m with
  | ind n earlier =>
    induction s generalizing t m n with
    | empty =>
      -- Nothing is mapped to nothing.
      obtain rfl := mapping.empty related
      cases there
    | mature head s ih =>
      -- The item comes from the image of the first item or from the mapped rest.
      obtain ⟨rest, relatedRest, rfl⟩ := mapping.mature related
      rcases there.of_append with ⟨j, l, origin, image, bound⟩ | ⟨m', n', origin, later, bound⟩
      · exact ⟨(0, j), .first relatedRest origin, head, 0, l, .head, image, Nat.zero_le n, bound⟩
      · obtain ⟨⟨i, j⟩, source, a, k, l, item, image, near, close⟩ :=
          ih n' (fun fewer less => earlier fewer (by omega)) relatedRest later
        exact ⟨(i + 1, j), .later relatedRest origin source, a, k, l, .tail item, image, by omega,
          by omega⟩
    | immature work =>
      -- The suspension is met below and in the mapped stream alike.
      obtain ⟨mapped, resumed, rfl⟩ := mapping.immature related
      cases there with
      | @forced _ n _ later =>
        obtain ⟨o, source, a, k, l, item, image, near, close⟩ :=
          earlier n (Nat.lt_succ_self n) resumed later
        exact ⟨o, .forced source, a, k + 1, l, .forced item, image, by omega, by omega⟩

/-- An item of the image of an item is met in the mapped stream, at a position that comes from there. -/
theorem ItemAt.mapping (mapping : Mapping meaning below g R) (related : R s t)
    (item : ItemAt below a i k s) (image : ItemAt meaning b j l (g a)) :
    ∃ m n, Source meaning below g R s m (i, j) ∧ ItemAt meaning b m n t := by
  -- The images of other items are joined with the one in question, and delay it at most.
  induction item generalizing t with
  | head =>
    -- The item is the first one below, so its image is on the left.
    obtain ⟨rest, relatedRest, rfl⟩ := mapping.mature related
    obtain ⟨m, n, origin, found, _⟩ := image.append_left rest
    exact ⟨m, n, .first relatedRest origin, found⟩
  | @tail i k head s _ ih =>
    -- The image is among those of the rest, which the first image is joined with.
    obtain ⟨rest, relatedRest, rfl⟩ := mapping.mature related
    obtain ⟨m, n, source, found⟩ := ih relatedRest
    obtain ⟨m', n', origin, joined, _⟩ := found.append_right (g head)
    exact ⟨m', n', .later relatedRest origin source, joined⟩
  | forced _ ih =>
    -- Both streams are forced once more.
    obtain ⟨mapped, resumed, rfl⟩ := mapping.immature related
    obtain ⟨m, n, source, found⟩ := ih resumed
    exact ⟨m, n + 1, .forced source, .forced found⟩

/-- If a stream and all images end, the mapped stream ends with all their items and suspensions. -/
theorem EndsWith.mapping {xs : List β} {parts : β → List α} {counts : β → Nat}
    (mapping : Mapping meaning below g R) (related : R s t) (ends : EndsWith below xs k s)
    (images : ∀ a ∈ xs, EndsWith meaning (parts a) (counts a) (g a)) :
    ∃ ys, EndsWith meaning ys (k + total (xs.map counts)) t ∧ ys.Perm (xs.flatMap parts) := by
  -- Each item adds its image to what the rest of the stream ends with.
  induction ends generalizing t with
  | empty =>
    obtain rfl := mapping.empty related
    exact ⟨[], .empty, .nil⟩
  | @item xs k a s later ih =>
    obtain ⟨rest, relatedRest, rfl⟩ := mapping.mature related
    obtain ⟨ys, mapped, same⟩ :=
      ih relatedRest fun b member => images b (List.mem_cons_of_mem a member)
    obtain ⟨zs, joined, both⟩ := (images a List.mem_cons_self).append mapped
    refine ⟨zs, ?_, ?_⟩
    · -- The suspensions of the first image are counted once more.
      have count : k + total ((a :: xs).map counts) = counts a + (k + total (xs.map counts)) := by
        simp only [List.map_cons, total]
        omega
      rw [count]
      exact joined
    · rw [List.flatMap_cons]
      exact both.trans (same.append_left _)
  | @forced xs k work later ih =>
    obtain ⟨mapped, resumed, rfl⟩ := mapping.immature related
    obtain ⟨ys, ending, same⟩ := ih resumed images
    refine ⟨ys, ?_, same⟩
    rw [show k + 1 + total (xs.map counts) = k + total (xs.map counts) + 1 by omega]
    exact .forced ending

/-- A mapped stream that ends comes from a stream that ends, as do the images of all its items. -/
theorem EndsWith.of_mapping {ys : List α} (mapping : Mapping meaning below g R) (related : R s t)
    (ends : EndsWith meaning ys n t) :
    ∃ xs k, EndsWith below xs k s ∧ ∀ a ∈ xs, Ends meaning (g a) := by
  -- Forcing the mapped stream forces the one below it, with one forcing less to go.
  induction n using Nat.strongRecOn generalizing s t ys with
  | ind n earlier =>
    induction s generalizing t ys n with
    | empty => exact ⟨[], 0, .empty, nofun⟩
    | mature head s ih =>
      obtain ⟨rest, relatedRest, rfl⟩ := mapping.mature related
      obtain ⟨zs, ys, k, l, image, mapped, count⟩ := EndsWith.of_append ends
      -- The mapped rest has at most as many suspensions as the whole.
      obtain ⟨xs, k', ending, images⟩ :=
        ih l (fun fewer less => earlier fewer (by omega)) relatedRest mapped
      refine ⟨head :: xs, k', .item ending, fun a member => ?_⟩
      rcases List.mem_cons.1 member with rfl | behind
      · exact ⟨k, zs, image⟩
      · exact images a behind
    | immature work =>
      obtain ⟨mapped, resumed, rfl⟩ := mapping.immature related
      cases ends with
      | @forced _ n _ later =>
        obtain ⟨xs, k, ending, images⟩ := earlier n (Nat.lt_succ_self n) resumed later
        exact ⟨xs, k + 1, .forced ending, images⟩

/-- An item is reached in a mapped stream exactly if it is reached in the image of one reached below. -/
theorem Mapping.reached_iff (mapping : Mapping meaning below g R) (related : R s t) :
    Reached meaning b t ↔ ∃ a, Reached below a s ∧ Reached meaning b (g a) := by
  refine ⟨fun reached => ?_, fun reached => ?_⟩
  -- To be reached is to stand somewhere, and positions are known to correspond.
  · obtain ⟨m, n, there⟩ := reached_iff_itemAt.1 reached
    obtain ⟨o, _, a, k, l, item, image, _⟩ := there.of_mapping mapping related
    exact ⟨a, reached_iff_itemAt.2 ⟨o.1, k, item⟩, reached_iff_itemAt.2 ⟨o.2, l, image⟩⟩
  · obtain ⟨a, item, image⟩ := reached
    obtain ⟨i, k, item⟩ := reached_iff_itemAt.1 item
    obtain ⟨j, l, image⟩ := reached_iff_itemAt.1 image
    obtain ⟨m, n, _, found⟩ := item.mapping mapping related image
    exact reached_iff_itemAt.2 ⟨m, n, found⟩

/-- A mapped stream ends exactly when the stream below ends and the images of all its items do. -/
theorem Mapping.ends_iff (mapping : Mapping meaning below g R) (related : R s t) :
    Ends meaning t ↔ Ends below s ∧ ∀ a, Reached below a s → Ends meaning (g a) := by
  refine ⟨fun ends => ?_, fun ends => ?_⟩
  · -- The items below are those that are reached, so their images are the ones that end.
    obtain ⟨n, ys, ends⟩ := ends
    obtain ⟨xs, k, ending, images⟩ := ends.of_mapping mapping related
    exact ⟨⟨k, xs, ending⟩, fun a reached => images a (ending.mem_iff.2 reached)⟩
  · obtain ⟨⟨k, xs, ending⟩, images⟩ := ends
    -- An item has the same image wherever it stands, so counts and items depend on it alone.
    have chosen : ∀ a, ∃ c : Nat × List α, a ∈ xs → EndsWith meaning c.2 c.1 (g a) := by
      intro a
      by_cases member : a ∈ xs
      · obtain ⟨n, items, image⟩ := images a (ending.mem_iff.1 member)
        exact ⟨(n, items), fun _ => image⟩
      · exact ⟨(0, []), fun absurd => (member absurd).elim⟩
    obtain ⟨choice, ends⟩ := Classical.axiomOfChoice chosen
    obtain ⟨ys, mapped, _⟩ := ending.mapping mapping related ends
    exact ⟨_, ys, mapped⟩

/--
The items of a stream are those of the images of another stream's items, each image in its own order.

Every position of the mapped stream comes from a position below and one in the image of the item there.
-/
structure Spreads (meaning : σ → Stream σ α) (below : τ → Stream τ β) (g : β → Stream σ α)
    (s : Stream τ β) (mapped : Stream σ α) (source : Nat → Nat × Nat) : Prop where
  /-- Every item stands where it comes from, and is met no later there. -/
  sound : ∀ {b m n}, ItemAt meaning b m n mapped →
    ∃ a k l, ItemAt below a (source m).1 k s ∧ ItemAt meaning b (source m).2 l (g a) ∧
      k ≤ n ∧ l ≤ n
  /-- No item of an image is lost. -/
  complete : ∀ {a b i j k l}, ItemAt below a i k s → ItemAt meaning b j l (g a) →
    ∃ m n, source m = (i, j) ∧ ItemAt meaning b m n mapped
  /-- Items of one image come in the order they have there, so none of them comes twice. -/
  ordered : ∀ {b c m n k l}, ItemAt meaning b m k mapped → ItemAt meaning c n l mapped → m < n →
    (source m).1 = (source n).1 → (source m).2 < (source n).2

/-- The places that a mapped stream's items come from show that it spreads the images. -/
theorem Mapping.exists_spreads (mapping : Mapping meaning below g R) (related : R s t) :
    ∃ source, Spreads meaning below g s t source := by
  -- Positions behind the end come from nowhere, and any value does for them.
  obtain ⟨source, chosen⟩ := exists_function (r := Source meaning below g R s)
    fun m o p first second => first.unique mapping second
  refine ⟨source, ⟨fun there => ?_, fun item image => ?_, ?_⟩⟩
  · -- The chosen source is the one that the rules give.
    obtain ⟨o, found, a, k, l, item, image, near, close⟩ := there.of_mapping mapping related
    rw [chosen _ _ found]
    exact ⟨a, k, l, item, image, near, close⟩
  · obtain ⟨m, n, found, mapped⟩ := item.mapping mapping related image
    exact ⟨m, n, chosen _ _ found, mapped⟩
  · intro b c m n k l first second before same
    -- Both items have the sources that were chosen for them, and those are in order.
    obtain ⟨o, firstSource, _⟩ := first.of_mapping mapping related
    obtain ⟨p, secondSource, _⟩ := second.of_mapping mapping related
    rw [chosen _ _ firstSource, chosen _ _ secondSource] at same ⊢
    exact firstSource.lt mapping secondSource before same

/-- A stream holds what the images of another stream's items hold, no less and no more. -/
structure MapsExactly (meaning : σ → Stream σ α) (below : τ → Stream τ β) (g : β → Stream σ α)
    (s : Stream τ β) (mapped : Stream σ α) : Prop where
  reached_iff : ∀ b, Reached meaning b mapped ↔ ∃ a, Reached below a s ∧ Reached meaning b (g a)
  spreads : ∃ source, Spreads meaning below g s mapped source
  ends_iff : Ends meaning mapped ↔ Ends below s ∧ ∀ a, Reached below a s → Ends meaning (g a)
  /-- The items are those of all images together, and so are the suspensions, besides those below. -/
  ending : ∀ {xs : List β} {ys : List α} {k n : Nat} {parts : β → List α} {counts : β → Nat},
    EndsWith meaning ys n mapped → EndsWith below xs k s →
    (∀ a ∈ xs, EndsWith meaning (parts a) (counts a) (g a)) →
    ys.Perm (xs.flatMap parts) ∧ n = k + total (xs.map counts)

/-- Whatever maps a stream item by item maps it exactly. -/
theorem Mapping.mapsExactly (mapping : Mapping meaning below g R) (related : R s t) :
    MapsExactly meaning below g s t where
  reached_iff := fun _ => mapping.reached_iff related
  spreads := mapping.exists_spreads related
  ends_iff := mapping.ends_iff related
  ending := by
    intro xs ys k n parts counts ends ending images
    -- The end that the parts lead to is the only one.
    obtain ⟨zs, mapped, same⟩ := ending.mapping mapping related images
    obtain ⟨rfl, rfl⟩ := ends.unique mapped
    exact ⟨same, rfl⟩

/--
Replacing every item by a stream loses nothing and adds nothing, whether the streams end or not.

The same holds where the images have items of another kind, and of lazy lists, whose items may be of any
kind.
-/
theorem flatMap_exact (meaning : σ → Stream σ α) :
    (∀ (g : α → Stream σ α) (s : Stream σ α), MapsExactly meaning meaning g s (s.flatMap g)) ∧
      (∀ (β ρ : Type) (g : α → Stream (Suspension σ α ⊕ ρ) β) own (s : Stream σ α),
        MapsExactly (mappingJob meaning g own) meaning g s
          (s.sweepFlatMap (fun work => .source (.inl work)) g)) ∧
      ∀ (β : Type) (g : β → Stream σ α) (items : LazyList β),
        MapsExactly meaning noJobs g (ofLazyList items) (items.flatMap g) :=
  -- All three are mappings item by item, and differ only in how the work that is left is named.
  ⟨fun g _ => (mapping_flatMap meaning g).mapsExactly rfl,
    fun _ _ g own _ => (mapping_sweepFlatMap meaning g own).mapsExactly rfl,
    fun _ g items => (mapping_lazyList meaning g).mapsExactly ⟨items, rfl, rfl⟩⟩

end Relational.Stream
