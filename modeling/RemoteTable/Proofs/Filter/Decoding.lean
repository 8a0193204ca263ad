import RemoteTable.Proofs.Datum.Decoding
import RemoteTable.Proofs.Filter.Combination

/-!
# The two readers of filters

One reader of filters reports what is wrong with a value; the other one takes the parts of the value
from left to right, each as data of a type of its own. Both read a filter from the value that carries
it and from no other value (`Filter.ofWire_eq_ok_iff`, `Filter.decode_eq_ok_iff`), so for the second one
the chains are those values that begin with a text, and of the other chains it reads the even places
(`FilterChain.readers_agree`).
-/

namespace RemoteTable

/-! ## Operators and filters -/

/-- An operator is taken from the text of its own token and from no other value. -/
theorem Operator.decode_eq_ok_iff {j : Json} {op : Operator} :
    Operator.decode j = .ok op ↔ j = .string op.token := by
  cases j with
  | string token =>
    rw [Operator.decode, mapError_eq_ok_iff, ofToken_eq_ok_iff, Json.string.injEq, eq_comm]
  | _ => simp [Operator.decode]

namespace Filter

/-- The parts of a filter are taken from the value that carries it and from no other one. -/
theorem decode_eq_ok_iff {j : Json} {f : Filter} : decode j = .ok f ↔ j = f.toWire := by
  constructor
  · intro h
    unfold decode at h
    split at h
    case h_2 => cases h
    case h_1 field more =>
      -- behind the field an operator is taken before anything is said about what follows it
      split at h
      case h_1 => cases h
      case h_2 operator more =>
        cases hop : Operator.decode operator with
        | error fault =>
          rw [hop] at h
          cases h
        | ok op =>
          rw [hop] at h
          simp only [bind, Except.bind, Datum.decode?_eq] at h
          split at h
          case h_1 operand =>
            cases h
            rw [toWire, Operator.decode_eq_ok_iff.mp hop, Datum.toJson_ofJson]
          case h_2 => cases h
  · rintro rfl
    have hop := Operator.decode_eq_ok_iff.mpr (rfl : Json.string f.operator.token = _)
    simp [toWire, decode, hop, Datum.decode?_eq, bind, Except.bind]

/-- Filters that are written alike are the same. -/
theorem toWire_injective : Function.Injective toWire := by
  intro f g h
  have hread := ofWire_eq_ok_iff.mpr h
  rw [ofWire_eq_ok_iff.mpr rfl] at hread
  exact Except.ok.inj hread

end Filter

namespace FilterChain

/-! ## Beginnings of a sequence -/

/-- Whether a value is a sequence that begins with a text. -/
def BeginsWithText (v : Json) : Prop :=
  ∃ text more, v = .array (.string text :: more)

/-- Whether a value stands at an even place of a sequence of odd length, where it depends on this value
alone whether the sequence is a chain. -/
structure DecidesAt (places : List Json) (i : ℕ) (place : Json) : Prop where
  /-- The length is odd. -/
  odd : places.length % 2 = 1
  /-- The place is even. -/
  even : i % 2 = 0
  /-- The value stands there. -/
  found : places[i]? = some place
  /-- Every other place has its shape. -/
  others : ∀ k other, k ≠ i → places[k]? = some other → ChainItem.IsWire k other

variable {v place : Json} {f : Filter} {c : FilterChain} {places : List Json} {i : ℕ}

/-- A filter on the wire begins with the text of its field. -/
theorem beginsWithText_toWire (f : Filter) : BeginsWithText f.toWire :=
  ⟨f.field, _, rfl⟩

/-- No chain begins with a text on the wire, where its first filter stands. -/
theorem not_beginsWithText_toWire (c : FilterChain) : ¬ BeginsWithText c.toWire := by
  rintro ⟨text, more, h⟩
  rw [toWire_eq] at h
  cases h

/-- From a value that begins with a text only a single filter is read. -/
theorem parse_eq_ok_iff_of_beginsWithText (h : BeginsWithText v) :
    parse v = .ok c ↔ ∃ f, c = single f ∧ v = f.toWire := by
  rw [parse_eq_ok_iff, ofWire_eq_ok_iff]
  constructor
  · rintro (rfl | ⟨hrest, hv⟩)
    · exact absurd h c.not_beginsWithText_toWire
    · obtain ⟨first, rest⟩ := c
      cases hrest
      exact ⟨first, rfl, hv⟩
  · rintro ⟨f, rfl, hv⟩
    exact .inr ⟨rfl, hv⟩

/-! ## Chains -/

/-- A filter is taken from a value if it is read as the chain of it, from its first text on. -/
theorem decode_eq_ok_iff_parse :
    Filter.decode v = .ok f ↔ BeginsWithText v ∧ parse v = .ok (single f) := by
  rw [Filter.decode_eq_ok_iff]
  constructor
  · rintro rfl
    have hbegins := beginsWithText_toWire f
    exact ⟨hbegins, (parse_eq_ok_iff_of_beginsWithText hbegins).mpr ⟨f, rfl, rfl⟩⟩
  · rintro ⟨hbegins, hread⟩
    obtain ⟨g, hg, rfl⟩ := (parse_eq_ok_iff_of_beginsWithText hbegins).mp hread
    rw [(FilterChain.mk.inj hg).1]

/-! ## One deciding place -/

namespace DecidesAt

/-- What is read stands in the places of the sequence, which are not those of a bare triple: behind
its field a triple has an operator, and a chain has a join. -/
theorem eq_map_toWire (h : DecidesAt places i place) (hread : parse (.array places) = .ok c) :
    places = c.items.map ChainItem.toWire := by
  rcases ofWire_eq_ok_iff.mp (parse_eq_ok_iff.mp hread) with hc | ⟨-, hc⟩
  · exact Json.array.inj hc
  · have hplaces := Json.array.inj hc
    have heven := h.even
    have hjoin := h.others 1 (.string c.first.operator.token) (by omega) (by rw [hplaces]; rfl)
    rw [ChainItem.isWire_odd rfl] at hjoin
    cases hop : c.first.operator <;> simp [hop, Join.IsWire, Operator.token] at hjoin

/-- If the value is a filter, the sequence is read as a chain. -/
theorem exists_parse (h : DecidesAt places i place) (hplace : Filter.IsWire place) :
    ∃ c, parse (.array places) = .ok c := by
  have hshape : IsWire (.array places) := by
    refine ⟨places, rfl, h.odd, fun k other hother => ?_⟩
    by_cases hk : k = i
    · subst hk
      obtain rfl : place = other := Option.some.inj (h.found.symm.trans hother)
      exact (ChainItem.isWire_even h.even).mpr hplace
    · exact h.others k other hk hother
  obtain ⟨c, hc⟩ := exists_ofWire_of_isWire hshape
  exact ⟨c, parse_eq_ok_iff.mpr hc⟩

/-- If the sequence is read as a chain, it has a filter at the place, which the value carries. -/
theorem exists_filter (h : DecidesAt places i place) (hread : parse (.array places) = .ok c) :
    ∃ f, c.items[i]? = some (.filter f) ∧ place = f.toWire := by
  have hfound := h.found
  rw [h.eq_map_toWire hread, List.getElem?_map] at hfound
  obtain ⟨item, hitem, rfl⟩ := Option.map_eq_some_iff.mp hfound
  obtain ⟨f, rfl⟩ := c.alternates_items.filter hitem h.even
  exact ⟨f, hitem, rfl⟩

/-- The chain has a filter at the place exactly if this filter is taken from the value. -/
theorem parse_iff_decode (h : DecidesAt places i place) :
    (∃ c, parse (.array places) = .ok c ∧ c.items[i]? = some (.filter f)) ↔
      Filter.decode place = .ok f := by
  rw [Filter.decode_eq_ok_iff]
  constructor
  · rintro ⟨c, hread, hitem⟩
    obtain ⟨g, hg, rfl⟩ := h.exists_filter hread
    rw [hitem, Option.some.injEq, ChainItem.filter.injEq] at hg
    rw [hg]
  · rintro rfl
    obtain ⟨c, hread⟩ := h.exists_parse f.isWire_toWire
    obtain ⟨g, hg, hplace⟩ := h.exists_filter hread
    exact ⟨c, hread, by rw [hg, Filter.toWire_injective hplace]⟩

end DecidesAt

/-! ## Agreement of the readers -/

/-- The two readers of filters agree:

* a filter is taken from a value exactly if the value begins with a text and is read as the chain of
  this filter, and one is taken from every value that begins with a text and is read;
* the reader of a chain's places and the one that takes parts find the same filter or none, whatever
  the value is;
* so where it depends on the value at an even place whether a sequence is a chain, it is one exactly if
  a filter is taken from the value, and this is the filter at the place. -/
theorem readers_agree :
    (∀ v f, Filter.decode v = .ok f ↔ BeginsWithText v ∧ parse v = .ok (single f)) ∧
    (∀ v, (∃ f, Filter.decode v = .ok f) ↔ BeginsWithText v ∧ ∃ c, parse v = .ok c) ∧
    (∀ v f, Filter.ofWire v = .ok f ↔ Filter.decode v = .ok f) ∧
    ∀ places i place, DecidesAt places i place →
      ((∃ c, parse (.array places) = .ok c) ↔ ∃ f, Filter.decode place = .ok f) ∧
      ∀ f, (∃ c, parse (.array places) = .ok c ∧ c.items[i]? = some (.filter f)) ↔
        Filter.decode place = .ok f := by
  refine ⟨fun v f => decode_eq_ok_iff_parse, fun v => ?_, fun v f => ?_, fun places i place h => ?_⟩
  · constructor
    · rintro ⟨f, hf⟩
      obtain ⟨hbegins, hread⟩ := decode_eq_ok_iff_parse.mp hf
      exact ⟨hbegins, _, hread⟩
    · rintro ⟨hbegins, c, hread⟩
      obtain ⟨f, rfl, -⟩ := (parse_eq_ok_iff_of_beginsWithText hbegins).mp hread
      exact ⟨f, decode_eq_ok_iff_parse.mpr ⟨hbegins, hread⟩⟩
  · rw [Filter.ofWire_eq_ok_iff, Filter.decode_eq_ok_iff]
  · refine ⟨?_, fun f => h.parse_iff_decode⟩
    constructor
    · rintro ⟨c, hread⟩
      obtain ⟨f, hitem, -⟩ := h.exists_filter hread
      exact ⟨f, h.parse_iff_decode.mp ⟨c, hread, hitem⟩⟩
    · rintro ⟨f, hf⟩
      obtain ⟨c, hread, -⟩ := h.parse_iff_decode.mpr hf
      exact ⟨c, hread⟩

/-- The nested triple is taken as a filter, alone and at the end of a chain; a triple without its operand
is not, and no chain ends with it. -/
theorem nestedTriple_readers_agree :
    let f : Filter := ⟨"owner", .has, .object [("in", .array [.null, .array []])]⟩
    let short : Json := .array [.string "owner", .string "has"]
    Filter.decode nestedTriple = .ok f ∧ parse nestedTriple = .ok (single f) ∧
      DecidesAt [nestedTriple, .string "or", nestedTriple] 2 nestedTriple ∧
      (∃ c, parse (.array [nestedTriple, .string "or", nestedTriple]) = .ok c ∧
        c.items[2]? = some (.filter f)) ∧
      DecidesAt [nestedTriple, .string "or", short] 2 short ∧
      ¬ ∃ c, parse (.array [nestedTriple, .string "or", short]) = .ok c := by
  intro f short
  obtain ⟨halone, -, -, hplace⟩ := readers_agree
  have hf : Filter.decode nestedTriple = .ok f := rfl
  have hdecides : ∀ last, DecidesAt [nestedTriple, .string "or", last] 2 last := by
    intro last
    refine ⟨by simp, rfl, rfl, fun k other hk hother => ?_⟩
    match k, hk, hother with
    | 0, _, hother =>
      obtain rfl : nestedTriple = other := Option.some.inj hother
      exact ⟨"owner", .has, _, rfl⟩
    | 1, _, hother =>
      obtain rfl : Json.string "or" = other := Option.some.inj hother
      exact .inr rfl
    | 2, hk, _ => exact absurd rfl hk
    | k + 3, _, hother => simp at hother
  refine ⟨hf, ((halone _ f).mp hf).2, hdecides _, ((hplace _ _ _ (hdecides nestedTriple)).2 f).mpr hf,
    hdecides short, ?_⟩
  rw [(hplace _ _ _ (hdecides short)).1]
  rintro ⟨g, hg⟩
  cases hg

end FilterChain

end RemoteTable
