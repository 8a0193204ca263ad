import Mathlib.Data.List.Forall2
import RemoteTable.Filter.Field
import RemoteTable.Proofs.Filter.Wire

/-!
# Combining chains

A chain is the sequence of its places (`FilterChain.items_injective`), and the sequences that are
chains are those in which filters and joins take turns (`FilterChain.alternates_iff`). To combine two
chains is to write the places of one behind those of the other, with a join in between. So an
expression over filters, documents, wire names and joins comes to the sequence that is read off it
from left to right (`FilterExpression.places_of_chain`), and its parentheses leave no trace
(`FilterExpression.combination_flat`).
-/

namespace RemoteTable

/-! ## Places -/

/-- The place with the wire name of its field; a join is left alone. -/
def ChainItem.qualify (table : String) : ChainItem → ChainItem
  | filter f => filter { f with field := RemoteTable.qualify table f.field }
  | join j => join j

/-- The sequences in which filters and joins take turns: of odd length, with the filters at the even
places and the joins at the odd ones. -/
structure Alternates (places : List ChainItem) : Prop where
  /-- The length is odd. -/
  odd : places.length % 2 = 1
  /-- A filter stands at every even place. -/
  filter : ∀ {i place}, places[i]? = some place → i % 2 = 0 → ∃ f, place = .filter f
  /-- A join stands at every odd place. -/
  join : ∀ {i place}, places[i]? = some place → i % 2 = 1 → ∃ j, place = .join j

namespace Alternates

variable {places : List ChainItem} {f : Filter} {j : Join}

/-- A single filter stands for itself. -/
theorem single (f : Filter) : Alternates [.filter f] where
  odd := rfl
  filter := by
    intro i place hi _
    exact ⟨f, List.mem_singleton.mp (List.mem_of_getElem? hi)⟩
  join := by
    intro i place hi hodd
    obtain ⟨hlt, -⟩ := List.getElem?_eq_some_iff.mp hi
    rw [List.length_singleton] at hlt
    omega

/-- Two more places in front, a filter and a join, keep the turns. -/
theorem cons (h : Alternates places) : Alternates (.filter f :: .join j :: places) where
  odd := by
    rw [List.length_cons, List.length_cons]
    have hodd := h.odd
    omega
  filter := by
    intro i place hi heven
    match i with
    | 0 => exact ⟨f, (Option.some.inj hi).symm⟩
    | i + 2 => exact h.filter (i := i) hi (by omega)
  join := by
    intro i place hi hodd
    match i with
    | 1 => exact ⟨j, (Option.some.inj hi).symm⟩
    | i + 2 => exact h.join (i := i) hi (by omega)

/-- Filters and joins that take turns are a filter, or a filter and a join in front of more of
them. -/
theorem exists_cons (h : Alternates places) :
    ∃ f, places = [.filter f] ∨
      ∃ j rest, places = .filter f :: .join j :: rest ∧ Alternates rest := by
  match places with
  | [] => cases h.odd
  | [first] =>
    obtain ⟨f, rfl⟩ := h.filter (i := 0) rfl rfl
    exact ⟨f, .inl rfl⟩
  | first :: second :: rest =>
    obtain ⟨f, rfl⟩ := h.filter (i := 0) rfl rfl
    obtain ⟨j, rfl⟩ := h.join (i := 1) rfl rfl
    refine ⟨f, .inr ⟨j, rest, rfl, ?_, ?_, ?_⟩⟩
    · have hodd := h.odd
      rw [List.length_cons, List.length_cons] at hodd
      omega
    · intro i place hi heven
      exact h.filter (i := i + 2) hi (by omega)
    · intro i place hi hodd
      exact h.join (i := i + 2) hi (by omega)

end Alternates

namespace FilterChain

/-! ## Chains and their places -/

/-- The places of a chain behind its first filter begin with a join, which the next filter follows. -/
theorem items_cons (f : Filter) (j : Join) (g : Filter) (rest : List (Join × Filter)) :
    (⟨f, (j, g) :: rest⟩ : FilterChain).items = .filter f :: .join j :: (⟨g, rest⟩ : FilterChain).items :=
  rfl

/-- Qualifying changes the places of a chain one by one. -/
theorem items_qualify (table : String) (c : FilterChain) :
    (c.qualify table).items = c.items.map (ChainItem.qualify table) := by
  obtain ⟨first, rest⟩ := c
  show ChainItem.filter _ :: (rest.map _).flatMap _ = ChainItem.filter _ :: (rest.flatMap _).map _
  rw [List.flatMap_map, List.map_flatMap]
  rfl

/-- The places of two chains stand one behind the other, with the join between them. -/
theorem items_combine (a : FilterChain) (j : Join) (b : FilterChain) :
    (a.combine j b).items = a.items ++ .join j :: b.items := by
  simp [combine, items]

/-- Filters and joins alternate in every chain. -/
theorem alternates_items (c : FilterChain) : Alternates c.items := by
  obtain ⟨first, rest⟩ := c
  induction rest generalizing first with
  | nil => exact .single first
  | cons pair rest ih => exact (ih pair.2).cons

/-- No two chains have the same places. -/
theorem items_injective : Function.Injective items := by
  rintro ⟨f, rest⟩ ⟨g, rest'⟩ h
  induction rest generalizing f g rest' with
  | nil =>
    cases rest' with
    | nil =>
      cases h
      rfl
    | cons pair rest' => cases h
  | cons pair rest ih =>
    obtain ⟨j, next⟩ := pair
    cases rest' with
    | nil => cases h
    | cons pair' rest' =>
      obtain ⟨j', next'⟩ := pair'
      rw [items_cons, items_cons, List.cons.injEq, List.cons.injEq] at h
      obtain ⟨hf, hj, hrest⟩ := h
      cases hf
      cases hj
      cases ih next next' rest' hrest
      rfl

/-- The sequences in which filters and joins take turns are the places of chains. -/
theorem alternates_iff {places : List ChainItem} :
    Alternates places ↔ ∃ c : FilterChain, c.items = places := by
  constructor
  · intro h
    -- two places are taken off at a time
    induction hlength : places.length using Nat.strongRecOn generalizing places with
    | _ n ih =>
      obtain ⟨f, rfl | ⟨j, rest, rfl, hrest⟩⟩ := h.exists_cons
      · exact ⟨single f, rfl⟩
      · have hlt : rest.length < n := by
          rw [List.length_cons, List.length_cons] at hlength
          omega
        obtain ⟨⟨next, more⟩, hc⟩ := ih rest.length hlt hrest rfl
        exact ⟨⟨f, (j, next) :: more⟩, by rw [items_cons, hc]⟩
  · rintro ⟨c, rfl⟩
    exact c.alternates_items

/-! ## Combinations -/

/-- A combination does not tell how it was put together. -/
theorem combine_assoc (a b c : FilterChain) (j k : Join) :
    (a.combine j b).combine k c = a.combine j (b.combine k c) := by
  apply items_injective
  simp only [items_combine, List.append_assoc, List.cons_append]

theorem size_combine (a : FilterChain) (j : Join) (b : FilterChain) :
    (a.combine j b).size = a.size + 1 + b.size := by
  rw [size, items_combine, List.length_append, List.length_cons, size, size]
  omega

/-- The wire form of a combination puts the token of the join between both forms. -/
theorem toWire_combine (a : FilterChain) (j : Join) (b : FilterChain) :
    (a.combine j b).toWire =
      .array (a.items.map ChainItem.toWire ++ .string j.token :: b.items.map ChainItem.toWire) := by
  rw [toWire, items_combine, List.map_append, List.map_cons]
  rfl

theorem filters_combine (a : FilterChain) (j : Join) (b : FilterChain) :
    (a.combine j b).filters = a.filters ++ b.filters := by
  simp [filters, combine]

/-- Chains are equal as data exactly if their places are, one for one. -/
theorem sameValue_iff {a b : FilterChain} :
    a.sameValue b = true ↔ List.Forall₂ (fun x y => x.sameValue y = true) a.items b.items := by
  rw [sameValue, size, size, Bool.and_eq_true, beq_iff_eq, List.forall₂_iff_zip, List.all_eq_true]
  exact Iff.and Iff.rfl ⟨fun h _ _ hmem => h _ hmem, fun h _ hmem => h hmem⟩

end FilterChain

/-! ## Expressions -/

/-- What chains are made from: filters, documents that are read, wire names for the fields of a part,
and joins of two parts. -/
inductive FilterExpression where
  /-- A filter stands for the chain of itself. -/
  | filter (f : Filter)
  /-- A document stands for the chain that is read from it. -/
  | document (v : Json)
  /-- The fields of a part get their wire names in a table. -/
  | qualified (table : String) (part : FilterExpression)
  /-- Two parts are combined. -/
  | joined (left : FilterExpression) (j : Join) (right : FilterExpression)

namespace FilterExpression

/-- The chain that an expression comes to, unless one of its documents is not read. -/
def chain : FilterExpression → Except Error FilterChain
  | filter f => .ok (.single f)
  | document v => FilterChain.parse v
  | qualified table part => do return (← part.chain).qualify table
  | joined left j right => do return (← left.chain).combine j (← right.chain)

/-- The filters and joins that are read off an expression from left to right, without regard to its
parentheses. -/
inductive Places : FilterExpression → List ChainItem → Prop
  /-- A filter is one place. -/
  | filter (f : Filter) : Places (.filter f) [.filter f]
  /-- A document may be a single triple. -/
  | triple (f : Filter) : Places (.document f.toWire) [.filter f]
  /-- Or it is a sequence in which triples and joins take turns. -/
  | document {places : List ChainItem} (h : Alternates places) :
    Places (.document (.array (places.map ChainItem.toWire))) places
  /-- Only the names of fields change. -/
  | qualified {part : FilterExpression} {places : List ChainItem} (table : String)
      (h : Places part places) :
    Places (.qualified table part) (places.map (ChainItem.qualify table))
  /-- The join stands between the places of the parts. -/
  | joined {left right : FilterExpression} {before after : List ChainItem} (j : Join)
      (hleft : Places left before) (hright : Places right after) :
    Places (.joined left j right) (before ++ .join j :: after)

variable {e e' : FilterExpression} {c c' : FilterChain} {places places' : List ChainItem}

/-- What is read off an expression are the places of the chain that it comes to. -/
theorem Places.exists_chain (h : e.Places places) : ∃ c, e.chain = .ok c ∧ c.items = places := by
  induction h with
  | filter f => exact ⟨.single f, rfl, rfl⟩
  | triple f =>
    exact ⟨.single f, FilterChain.parse_eq_ok_iff.mpr (FilterChain.ofWire_filter f), rfl⟩
  | document h =>
    obtain ⟨c, rfl⟩ := FilterChain.alternates_iff.mp h
    exact ⟨c, FilterChain.parse_eq_ok_iff.mpr c.ofWire_toWire, rfl⟩
  | qualified table _ ih =>
    obtain ⟨c, hc, rfl⟩ := ih
    exact ⟨c.qualify table, by rw [chain, hc]; rfl, c.items_qualify table⟩
  | joined j _ _ ihleft ihright =>
    obtain ⟨a, ha, rfl⟩ := ihleft
    obtain ⟨b, hb, rfl⟩ := ihright
    exact ⟨a.combine j b, by rw [chain, ha, hb]; rfl, a.items_combine j b⟩

/-- An expression comes to the places that are read off it. -/
theorem places_of_chain (h : e.chain = .ok c) : e.Places c.items := by
  induction e generalizing c with
  | filter f =>
    cases h
    exact .filter f
  | document v =>
    rcases FilterChain.ofWire_eq_ok_iff.mp (FilterChain.parse_eq_ok_iff.mp h) with rfl | ⟨hrest, rfl⟩
    · exact .document c.alternates_items
    · obtain ⟨first, rest⟩ := c
      cases hrest
      exact .triple first
  | qualified table part ih =>
    cases hpart : part.chain with
    | error e =>
      rw [chain, hpart] at h
      cases h
    | ok a =>
      rw [chain, hpart] at h
      cases h
      rw [a.items_qualify]
      exact .qualified table (ih hpart)
  | joined left j right ihleft ihright =>
    cases hleft : left.chain with
    | error e =>
      rw [chain, hleft] at h
      cases h
    | ok a =>
      cases hright : right.chain with
      | error e =>
        rw [chain, hleft, hright] at h
        cases h
      | ok b =>
        rw [chain, hleft, hright] at h
        cases h
        rw [a.items_combine]
        exact .joined j (ihleft hleft) (ihright hright)

/-- The places are the only ones that can be read off. -/
theorem Places.eq_items (h : e.Places places) (hc : e.chain = .ok c) : places = c.items := by
  obtain ⟨a, ha, rfl⟩ := h.exists_chain
  rw [hc, Except.ok.injEq] at ha
  rw [ha]

/-- Chains are flat, and combining them does not group:

* the places of every chain are of odd length, with the filters at the even places and the joins at
  the odd ones, and every such sequence is that of exactly one chain;
* a combination of three chains is the same either way, whatever the joins;
* a combination is as long as both chains and the join; on the wire and in its filters it is the first
  chain, the join and the second chain;
* an expression that comes to a chain comes to the places that are read off it from left to right, and
  one from which places can be read off comes to a chain;
* so two expressions come to the same chain exactly if the same places are read off them, and to chains
  that are equal as data exactly if these places are, one for one. -/
theorem combination_flat :
    (∀ c : FilterChain, Alternates c.items) ∧
    (∀ places, Alternates places → ∃! c : FilterChain, c.items = places) ∧
    (∀ (a b c : FilterChain) j k, (a.combine j b).combine k c = a.combine j (b.combine k c)) ∧
    (∀ (a b : FilterChain) j, (a.combine j b).size = a.size + 1 + b.size ∧
      (a.combine j b).filters = a.filters ++ b.filters ∧
      ∃ left right, a.toWire = .array left ∧ b.toWire = .array right ∧
        (a.combine j b).toWire = .array (left ++ .string j.token :: right)) ∧
    (∀ (e : FilterExpression) c, e.chain = .ok c → e.Places c.items) ∧
    (∀ (e : FilterExpression) places, e.Places places → ∃ c, e.chain = .ok c ∧ c.items = places) ∧
    ∀ (e e' : FilterExpression) c c' places places', e.chain = .ok c → e'.chain = .ok c' →
      e.Places places → e'.Places places' →
      (c = c' ↔ places = places') ∧
      (c.sameValue c' = true ↔ List.Forall₂ (fun x y => x.sameValue y = true) places places') := by
  refine ⟨FilterChain.alternates_items, ?_, FilterChain.combine_assoc, ?_, fun _ _ => places_of_chain,
    fun _ _ h => h.exists_chain, ?_⟩
  · intro places h
    obtain ⟨c, hc⟩ := FilterChain.alternates_iff.mp h
    exact ⟨c, hc, fun c' hc' => FilterChain.items_injective (hc'.trans hc.symm)⟩
  · intro a b j
    exact ⟨a.size_combine j b, a.filters_combine j b, _, _, rfl, rfl, a.toWire_combine j b⟩
  · intro e e' c c' places places' hc hc' hplaces hplaces'
    obtain rfl := hplaces.eq_items hc
    obtain rfl := hplaces'.eq_items hc'
    exact ⟨FilterChain.items_injective.eq_iff.symm, FilterChain.sameValue_iff⟩

/-- Three filters, the last of which is read from a document, and the two ways to put them together
by a conjunction and a disjunction. -/
theorem regrouped_combination_flat :
    let artist : FilterExpression := .filter ((Field.ofName "artist").equal (.string "carol"))
    let status : FilterExpression := .filter ((Field.ofName "status").equal (.string "Check"))
    let step : FilterExpression :=
      .document (.array [.string "step", .string "=", .string "comp"])
    let grouped : FilterExpression := .joined (.joined artist .and status) .or step
    let regrouped : FilterExpression := .joined artist .and (.joined status .or step)
    ∃ c c', grouped.chain = .ok c ∧ regrouped.chain = .ok c' ∧ c = c' ∧ c.size = 5 := by
  intro artist status step grouped regrouped
  obtain ⟨-, -, -, -, hplaces, -, heq⟩ := combination_flat
  have hgrouped : ∃ c, grouped.chain = .ok c := ⟨_, rfl⟩
  have hregrouped : ∃ c, regrouped.chain = .ok c := ⟨_, rfl⟩
  obtain ⟨c, hc⟩ := hgrouped
  obtain ⟨c', hc'⟩ := hregrouped
  have hread := hplaces _ _ hc
  have hread' := hplaces _ _ hc'
  have hsame : c.items = c'.items := by
    cases hc
    cases hc'
    rfl
  refine ⟨c, c', hc, hc', (heq _ _ _ _ _ _ hc hc' hread hread').1.mpr hsame, ?_⟩
  cases hc
  rfl

end FilterExpression

end RemoteTable
