import Relational.Proofs.Substitution.Assignment

/-! Vocabularies: finitely many terms that unification never leaves, counted by the size of values. -/

namespace Relational

namespace Term

variable {ν : Type}

/-- All parts of a term, the term itself included. -/
def subterms : Term ν → List (Term ν)
  | .pair a d => .pair a d :: (a.subterms ++ d.subterms)
  | .expr l op r => .expr l op r :: (l.subterms ++ r.subterms)
  | t => [t]

/-- A term has as many parts as nodes. -/
theorem length_subterms (t : Term ν) : t.subterms.length = t.size := by
  -- Each node is the root of one part.
  induction t with
  | pair a d first rest => simp [subterms, size, first, rest]
  | expr l op r left right => simp [subterms, size, left, right]
  | _ => rfl

/-- A term is a part of itself. -/
theorem self_mem_subterms (t : Term ν) : t ∈ t.subterms := by
  cases t <;> exact List.mem_cons_self

/-- The components of a part are parts. -/
theorem components_mem_subterms {t a d : Term ν} (member : .pair a d ∈ t.subterms) :
    a ∈ t.subterms ∧ d ∈ t.subterms := by
  -- The pair is the whole term, or it is found inside one of the two sides.
  induction t with
  | pair b c first rest =>
    simp only [subterms, List.mem_cons, List.mem_append] at member ⊢
    rcases member with same | inFirst | inRest
    · -- The whole pair has its components at the head of their own parts.
      cases same
      exact ⟨.inr (.inl a.self_mem_subterms), .inr (.inr d.self_mem_subterms)⟩
    · exact (first inFirst).imp (.inr ∘ .inl) (.inr ∘ .inl)
    · exact (rest inRest).imp (.inr ∘ .inr) (.inr ∘ .inr)
  | expr l op r left right =>
    simp only [subterms, List.mem_cons, List.mem_append, reduceCtorEq, false_or] at member ⊢
    rcases member with inLeft | inRight
    · exact (left inLeft).imp (.inr ∘ .inl) (.inr ∘ .inl)
    · exact (right inRight).imp (.inr ∘ .inr) (.inr ∘ .inr)
  | _ => simp [subterms] at member

/-- The parts of a term without expressions have none either. -/
theorem ExprFree.of_mem_subterms {t part : Term ν} (free : t.ExprFree)
    (member : part ∈ t.subterms) : part.ExprFree := by
  -- A part lies in one component, and neither has expressions.
  induction t with
  | pair a d first rest =>
    simp only [subterms, List.mem_cons, List.mem_append] at member
    rcases member with rfl | inFirst | inRest
    · exact free
    · exact first free.1 inFirst
    · exact rest free.2 inRest
  | expr l op r => exact free.elim
  | _ => exact List.mem_singleton.1 member ▸ free

end Term

namespace Substitution

/-- Among bindings in order, each one is found. -/
theorem findBinding_of_mem {bindings : List Binding} {x : Var} {t : Term Var}
    (ordered : bindings.Pairwise fun a b => b.1.id < a.1.id) (member : (x, t) ∈ bindings) :
    findBinding x bindings = some t := by
  -- The order keeps the search from giving up before it meets the binding.
  induction bindings with
  | nil => cases member
  | cons first rest ih =>
    obtain ⟨y, u⟩ := first
    obtain ⟨below, ordered⟩ := List.pairwise_cons.1 ordered
    rw [findBinding]
    rcases List.mem_cons.1 member with same | later
    · cases same
      simp
    · -- A later variable is smaller, so neither test at the first one stops the search.
      have smaller : x.id < y.id := below _ later
      have different : x ≠ y := by
        intro same
        subst same
        omega
      rw [if_neg (by omega), if_neg different, ih ordered later]

end Substitution

/-- Terms without expressions, with the components of every pair among them. -/
structure Vocabulary where
  terms : Finset (Term Var)
  exprFree : ∀ t ∈ terms, t.ExprFree
  components : ∀ a d, .pair a d ∈ terms → a ∈ terms ∧ d ∈ terms

namespace Vocabulary

variable {U : Vocabulary} {θ : Assignment} {s : Substitution} {t : Term Var}

/-- All terms that a substitution binds variables to are in the vocabulary. -/
def Covers (U : Vocabulary) (s : Substitution) : Prop :=
  ∀ x t, s.get? x = some t → t ∈ U.terms

/-- Following bindings does not leave the vocabulary. -/
theorem Covers.walk_mem (covers : U.Covers s) (member : t ∈ U.terms) : s.walk t ∈ U.terms :=
  -- Bound terms are in the vocabulary, so a hop does not lead out of it.
  s.walk_induction (· ∈ U.terms) (fun x u bound _ => covers x u bound) member

/-- Binding a variable to a term of the vocabulary does not leave it. -/
theorem Covers.extend (covers : U.Covers s) (x : Var) (member : t ∈ U.terms) :
    U.Covers (s.extend x t) := by
  -- The term that is found is the new one or was covered before.
  intro y u bound
  rw [Substitution.get?_extend] at bound
  split at bound
  · exact Option.some.inj bound ▸ member
  · exact covers y u bound

/-- How many terms of the vocabulary have values up to a size. -/
def countUpTo (U : Vocabulary) (θ : Assignment) (size : Nat) : Nat :=
  (U.terms.filter fun t => (θ.apply t).size ≤ size).card

/-- Below the size of a term's value there are fewer terms than up to it. -/
theorem countUpTo_lt (member : t ∈ U.terms) {size : Nat} (smaller : size < (θ.apply t).size) :
    U.countUpTo θ size < U.countUpTo θ (θ.apply t).size := by
  -- The term itself counts for its own size, and not for any smaller one.
  refine Finset.card_lt_card ((Finset.ssubset_iff_of_subset ?_).2 ⟨t, ?_, ?_⟩)
  · intro other counted
    obtain ⟨listed, bounded⟩ := Finset.mem_filter.1 counted
    exact Finset.mem_filter.2 ⟨listed, bounded.trans (Nat.le_of_lt smaller)⟩
  · exact Finset.mem_filter.2 ⟨member, Nat.le_refl _⟩
  · intro counted
    exact absurd (Finset.mem_filter.1 counted).2 (Nat.not_le.2 smaller)

/-- The parts of two terms and of everything that variables are bound to. -/
def ofTerms (s : Substitution) (u v : Term Var) (plain : s.ExprFree) (left : u.ExprFree)
    (right : v.ExprFree) : Vocabulary where
  terms := (u.subterms ++ v.subterms ++
    s.entries.flatMap fun binding => binding.2.subterms).toFinset
  exprFree := by
    intro t member
    simp only [List.mem_toFinset, List.mem_append, List.mem_flatMap] at member
    rcases member with (inLeft | inRight) | ⟨binding, listed, inBound⟩
    · exact left.of_mem_subterms inLeft
    · exact right.of_mem_subterms inRight
    · have bound := Substitution.findBinding_of_mem s.ordered listed
      exact (plain _ _ bound).of_mem_subterms inBound
  components := by
    intro a d member
    simp only [List.mem_toFinset, List.mem_append, List.mem_flatMap] at member ⊢
    rcases member with (inLeft | inRight) | ⟨binding, listed, inBound⟩
    · exact (Term.components_mem_subterms inLeft).imp (.inl ∘ .inl) (.inl ∘ .inl)
    · exact (Term.components_mem_subterms inRight).imp (.inl ∘ .inr) (.inl ∘ .inr)
    · obtain ⟨first, rest⟩ := Term.components_mem_subterms inBound
      exact ⟨.inr ⟨binding, listed, first⟩, .inr ⟨binding, listed, rest⟩⟩

variable {u v : Term Var} {plain : s.ExprFree} {left : u.ExprFree} {right : v.ExprFree}

/-- The first term is in the vocabulary. -/
theorem left_mem_ofTerms : u ∈ (ofTerms s u v plain left right).terms := by
  -- It is listed with its parts, and it is one of them.
  simp [ofTerms, u.self_mem_subterms]

/-- The second term is in the vocabulary. -/
theorem right_mem_ofTerms : v ∈ (ofTerms s u v plain left right).terms := by
  simp [ofTerms, v.self_mem_subterms]

/-- Everything that variables are bound to is in the vocabulary. -/
theorem ofTerms_covers : (ofTerms s u v plain left right).Covers s := by
  -- A bound term is listed with all its parts, of which it is one.
  intro x t bound
  simp only [ofTerms, List.mem_toFinset, List.mem_append, List.mem_flatMap]
  exact .inr ⟨(x, t), Substitution.mem_of_findBinding bound, t.self_mem_subterms⟩

/-- There are no more terms in the vocabulary than nodes in all terms together. -/
theorem countUpTo_ofTerms_le (size : Nat) :
    (ofTerms s u v plain left right).countUpTo θ size ≤ s.weight + u.size + v.size := by
  -- The weight of a substitution is the number of nodes of its terms.
  have weight : (s.entries.flatMap fun binding => binding.2.subterms).length = s.weight := by
    rw [s.weighed]
    induction s.entries with
    | nil => rfl
    | cons first rest ih =>
      simp only [List.flatMap_cons, List.length_append, Term.length_subterms, ih, bindingWeight]
  calc (ofTerms s u v plain left right).countUpTo θ size
      ≤ (ofTerms s u v plain left right).terms.card := Finset.card_filter_le _ _
    _ ≤ (u.subterms ++ v.subterms ++
        s.entries.flatMap fun binding => binding.2.subterms).length := List.toFinset_card_le _
    _ = s.weight + u.size + v.size := by
      rw [List.length_append, List.length_append, Term.length_subterms, Term.length_subterms,
        weight]
      omega

end Vocabulary

end Relational
