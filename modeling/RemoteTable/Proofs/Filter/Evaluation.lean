import RemoteTable.Filter.Chain

/-!
# The truth of a chain from left to right

A chain has no grouping, so a filter joined by `or` can make the chain true whatever stands in front
of it, and a filter joined by `and` can make it false whatever stands in front of it. What is joined
to a truth value makes it true in two ways (`foldl_apply_eq_true_iff`): the value was true and all
conjuncts hold, or a disjunct holds and all conjuncts behind this disjunct do.
-/

namespace RemoteTable

namespace FilterChain

/-! ## Conjuncts and disjuncts -/

/-- Whether the conjuncts among joined filters hold. -/
def ConjunctsHold (truth : Filter → Bool) (rest : List (Join × Filter)) : Prop :=
  ∀ f, (Join.and, f) ∈ rest → truth f = true

/-- Whether one of the disjuncts among joined filters holds, and all conjuncts behind it. -/
def DisjunctHolds (truth : Filter → Bool) (rest : List (Join × Filter)) : Prop :=
  ∃ before f after, rest = before ++ (Join.or, f) :: after ∧ truth f = true ∧
    ConjunctsHold truth after

variable {truth : Filter → Bool} {f : Filter} {rest : List (Join × Filter)}

/-- A filter that is joined by "and" belongs to the conjuncts. -/
theorem conjunctsHold_cons_and :
    ConjunctsHold truth ((.and, f) :: rest) ↔ truth f = true ∧ ConjunctsHold truth rest := by
  constructor
  · intro h
    exact ⟨h f List.mem_cons_self, fun g hg => h g (List.mem_cons_of_mem _ hg)⟩
  · rintro ⟨hf, hrest⟩ g hg
    rcases List.mem_cons.mp hg with heq | hg
    · obtain rfl : g = f := congrArg Prod.snd heq
      exact hf
    · exact hrest g hg

/-- A filter that is joined by "or" is no conjunct. -/
theorem conjunctsHold_cons_or :
    ConjunctsHold truth ((.or, f) :: rest) ↔ ConjunctsHold truth rest := by
  constructor
  · intro h g hg
    exact h g (List.mem_cons_of_mem _ hg)
  · intro h g hg
    rcases List.mem_cons.mp hg with heq | hg
    · cases heq
    · exact h g hg

/-- Behind the end there is no further disjunct. -/
theorem not_disjunctHolds_nil : ¬ DisjunctHolds truth [] := by
  rintro ⟨before, f, after, hrest, -⟩
  cases before <;> cases hrest

/-- A conjunct in front does not matter to a disjunct behind it. -/
theorem disjunctHolds_cons_and :
    DisjunctHolds truth ((.and, f) :: rest) ↔ DisjunctHolds truth rest := by
  constructor
  · rintro ⟨before, g, after, hrest, hg, hafter⟩
    cases before with
    | nil => cases hrest
    | cons pair before =>
      obtain ⟨-, rfl⟩ := List.cons.inj hrest
      exact ⟨before, g, after, rfl, hg, hafter⟩
  · rintro ⟨before, g, after, rfl, hg, hafter⟩
    exact ⟨(.and, f) :: before, g, after, rfl, hg, hafter⟩

/-- A disjunct holds from a join by "or" on, or from a later one. -/
theorem disjunctHolds_cons_or :
    DisjunctHolds truth ((.or, f) :: rest) ↔
      truth f = true ∧ ConjunctsHold truth rest ∨ DisjunctHolds truth rest := by
  constructor
  · rintro ⟨before, g, after, hrest, hg, hafter⟩
    cases before with
    | nil =>
      obtain ⟨hpair, rfl⟩ := List.cons.inj hrest
      obtain rfl : f = g := congrArg Prod.snd hpair
      exact .inl ⟨hg, hafter⟩
    | cons pair before =>
      obtain ⟨-, rfl⟩ := List.cons.inj hrest
      exact .inr ⟨before, g, after, rfl, hg, hafter⟩
  · rintro (⟨hf, hrest⟩ | ⟨before, g, after, rfl, hg, hafter⟩)
    · exact ⟨[], f, rest, rfl, hf, hrest⟩
    · exact ⟨(.or, f) :: before, g, after, rfl, hg, hafter⟩

/-! ## Chains -/

/-- Filters joined to a truth value come out true when the value was true and all conjuncts hold, or
when a disjunct holds and all conjuncts behind it. -/
theorem foldl_apply_eq_true_iff (sofar : Bool) :
    rest.foldl (fun sofar (j, f) => j.apply sofar (truth f)) sofar = true ↔
      sofar = true ∧ ConjunctsHold truth rest ∨ DisjunctHolds truth rest := by
  induction rest generalizing sofar with
  | nil =>
    have hnone : ConjunctsHold truth [] := fun f hf => by cases hf
    simp [hnone, not_disjunctHolds_nil]
  | cons pair rest ih =>
    obtain ⟨j, f⟩ := pair
    rw [List.foldl_cons, ih]
    cases j with
    | and =>
      show (sofar && truth f) = true ∧ _ ∨ _ ↔ _
      rw [conjunctsHold_cons_and, disjunctHolds_cons_and, Bool.and_eq_true, and_assoc]
    | or =>
      show (sofar || truth f) = true ∧ _ ∨ _ ↔ _
      rw [conjunctsHold_cons_or, disjunctHolds_cons_or, Bool.or_eq_true, or_and_right, or_assoc]

/-- A chain holds if its first filter and all conjuncts do, or a disjunct and all conjuncts behind
it. -/
theorem evaluate_eq_true_iff (c : FilterChain) :
    c.evaluate truth = true ↔
      truth c.first = true ∧ ConjunctsHold truth c.rest ∨ DisjunctHolds truth c.rest :=
  foldl_apply_eq_true_iff _

/-- A chain behind a conjunction: both have to hold, unless a disjunct of the chain is what holds. -/
theorem evaluate_single_and_eq_true_iff (f : Filter) (c : FilterChain) :
    ((single f).and c).evaluate truth = true ↔
      truth f = true ∧ c.evaluate truth = true ∨ DisjunctHolds truth c.rest := by
  have hchain : (single f).and c = ⟨f, (.and, c.first) :: c.rest⟩ := rfl
  rw [hchain, evaluate_eq_true_iff, evaluate_eq_true_iff, conjunctsHold_cons_and,
    disjunctHolds_cons_and]
  constructor
  · rintro (⟨hf, hchain⟩ | hdisjunct)
    · exact .inl ⟨hf, .inl hchain⟩
    · exact .inr hdisjunct
  · rintro (⟨hf, hchain | hdisjunct⟩ | hdisjunct)
    · exact .inl ⟨hf, hchain⟩
    · exact .inr hdisjunct
    · exact .inr hdisjunct

end FilterChain

end RemoteTable
