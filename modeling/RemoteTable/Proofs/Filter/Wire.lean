import Mathlib.Data.Nat.Notation
import RemoteTable.Filter.Chain
import RemoteTable.Proofs.Datum.Json

/-!
# Chains and the JSON values that carry them

Which values are read as a chain is described by their shape alone: `Filter.IsWire` for a triple,
`FilterChain.IsWire` for a sequence in which triples and joins take turns. A value of neither shape
is refused, and a refused sequence with the outer form of a chain is refused for its leftmost
place of the wrong shape (`FirstFault`). Reading and writing invert one another, but for a bare
triple, which is written as the sequence of itself. `FilterChain.parse_exact` collects this.
-/

namespace RemoteTable

/-- A failure that is reported in other words is a failure before. -/
theorem mapError_eq_ok_iff {ε ε' α : Type} {x : Except ε α} {f : ε → ε'} {a : α} :
    x.mapError f = .ok a ↔ x = .ok a := by
  constructor
  · intro h
    cases x with
    | ok b =>
      cases h
      rfl
    | error e => cases h
  · rintro rfl
    rfl

/-! ## Tokens -/

namespace Operator

/-- An operator is read from its own token and from no other text. -/
theorem ofToken?_eq_some_iff {token : String} {op : Operator} :
    ofToken? token = some op ↔ op.token = token := by
  constructor
  · intro h
    simpa using List.find?_some h
  · rintro rfl
    cases op <;> rfl

/-- Operators are read from their tokens alone. -/
theorem ofToken_eq_ok_iff {token : String} {op : Operator} :
    ofToken token = .ok op ↔ op.token = token := by
  rw [← ofToken?_eq_some_iff, ofToken]
  split <;> simp_all

end Operator

namespace Join

/-- Whether a value is the text of a join. -/
def IsWire (j : Json) : Prop :=
  j = .string "and" ∨ j = .string "or"

/-- A join is read from the text of its own token and from no other value. -/
theorem ofJson?_eq_some_iff {j : Json} {join : Join} :
    ofJson? j = some join ↔ j = .string join.token := by
  constructor
  · cases j with
    | string token =>
      intro h
      have : join.token = token := by simpa using List.find?_some h
      rw [this]
    | _ => simp [ofJson?]
  · rintro rfl
    cases join <;> rfl

theorem isWire_token (join : Join) : IsWire (.string join.token) := by
  cases join
  · exact .inl rfl
  · exact .inr rfl

/-- Joins are read from their wire forms alone. -/
theorem exists_ofJson?_iff {j : Json} : (∃ join, ofJson? j = some join) ↔ IsWire j := by
  simp only [ofJson?_eq_some_iff]
  constructor
  · rintro ⟨join, rfl⟩
    exact isWire_token join
  · rintro (rfl | rfl)
    · exact ⟨.and, rfl⟩
    · exact ⟨.or, rfl⟩

end Join

/-! ## Filters -/

namespace Filter

/-- Whether a value is a triple of a text, an operator's token and any operand. -/
def IsWire (j : Json) : Prop :=
  ∃ (field : String) (operator : Operator) (operand : Json),
    j = .array [.string field, .string operator.token, operand]

/-- Of three parts in order only the token can be refused. -/
theorem ofWire_triple (field token : String) (operand : Json) :
    ofWire (.array [.string field, .string token, operand]) =
      (⟨field, ·, .ofJson operand⟩) <$> Operator.ofToken token := by
  cases h : Operator.ofToken token <;> simp [ofWire, h] <;> rfl

/-- A filter is read from the value that carries it and from no other. -/
theorem ofWire_eq_ok_iff {j : Json} {f : Filter} : ofWire j = .ok f ↔ j = f.toWire := by
  constructor
  · intro h
    unfold ofWire at h
    split at h
    case h_1 field operator operand =>
      cases field <;> try cases h
      cases operator <;> try cases h
      case string.string field token =>
        change ofWire (.array [.string field, .string token, operand]) = .ok f at h
        rw [ofWire_triple] at h
        cases hop : Operator.ofToken token with
        | error fault =>
          rw [hop] at h
          cases h
        | ok op =>
          rw [hop] at h
          cases h
          rw [toWire, Operator.ofToken_eq_ok_iff.mp hop, Datum.toJson_ofJson]
    case h_2 => cases h
  · rintro rfl
    rw [toWire, ofWire_triple, Operator.ofToken_eq_ok_iff.mpr rfl, Datum.ofJson_toJson]
    rfl

/-- What is written has the wire form. -/
theorem isWire_toWire (f : Filter) : IsWire f.toWire :=
  ⟨f.field, f.operator, f.value.toJson, rfl⟩

/-- What has the wire form is read, and nothing else. -/
theorem exists_ofWire_iff {j : Json} : (∃ f, ofWire j = .ok f) ↔ IsWire j := by
  simp only [ofWire_eq_ok_iff]
  constructor
  · rintro ⟨f, rfl⟩
    exact isWire_toWire f
  · rintro ⟨field, operator, operand, rfl⟩
    exact ⟨⟨field, operator, .ofJson operand⟩, by simp [toWire]⟩

end Filter

/-! ## Places of a chain -/

namespace ChainItem

/-- What a value stands for at a place of a chain: a filter at an even place and a join at an odd
one, or the fault of not being one. -/
def ofWire (position : ℕ) (j : Json) : Except FilterFault ChainItem :=
  if position % 2 = 0 then .filter <$> Filter.ofWire j
  else
    match Join.ofJson? j with
    | some combine => .ok (.join combine)
    | none => .error (.notAJoin position j)

/-- Whether a value has the shape of what stands at a place of a chain. -/
def IsWire (position : ℕ) (j : Json) : Prop :=
  if position % 2 = 0 then Filter.IsWire j else Join.IsWire j

variable {position : ℕ} {j : Json} {fault : FilterFault}

theorem isWire_even (h : position % 2 = 0) : IsWire position j ↔ Filter.IsWire j := by
  rw [IsWire, if_pos h]

theorem isWire_odd (h : position % 2 = 1) : IsWire position j ↔ Join.IsWire j := by
  rw [IsWire, if_neg (by omega)]

theorem ofWire_eq_error_even (h : position % 2 = 0) :
    ofWire position j = .error fault ↔ Filter.ofWire j = .error fault := by
  rw [ofWire, if_pos h]
  cases Filter.ofWire j <;> simp [Functor.map, Except.map]

theorem ofWire_eq_error_odd (h : position % 2 = 1) :
    ofWire position j = .error fault ↔
      Join.ofJson? j = none ∧ fault = .notAJoin position j := by
  rw [ofWire, if_neg (by omega)]
  cases Join.ofJson? j <;> simp [eq_comm]

/-- A value at fault does not have the shape of its place. -/
theorem not_isWire_of_ofWire_eq_error (h : ofWire position j = .error fault) :
    ¬ IsWire position j := by
  rcases Nat.mod_two_eq_zero_or_one position with heven | hodd
  · rw [isWire_even heven, ← Filter.exists_ofWire_iff, (ofWire_eq_error_even heven).mp h]
    simp
  · rw [isWire_odd hodd, ← Join.exists_ofJson?_iff, ((ofWire_eq_error_odd hodd).mp h).1]
    simp

end ChainItem

/-- Whether the leftmost of some places without the shape of its place is at fault in this way, the
first of them being at `position`. -/
def FirstFault (position : ℕ) (places : List Json) (fault : FilterFault) : Prop :=
  ∃ i place, places[i]? = some place ∧ ChainItem.ofWire (position + i) place = .error fault ∧
    ∀ k earlier, k < i → places[k]? = some earlier → ChainItem.IsWire (position + k) earlier

/-- Where no place is left there is no fault. -/
theorem not_firstFault_nil {position : ℕ} {fault : FilterFault} :
    ¬ FirstFault position [] fault := by
  rintro ⟨i, place, hi, -⟩
  simp at hi

/-- The first place is at fault, or it is not and the leftmost fault is behind it. -/
theorem firstFault_cons {position : ℕ} {place : Json} {places : List Json}
    {fault : FilterFault} :
    FirstFault position (place :: places) fault ↔
      ChainItem.ofWire position place = .error fault ∨
        ChainItem.IsWire position place ∧ FirstFault (position + 1) places fault := by
  constructor
  · rintro ⟨i, found, hi, hfault, hbefore⟩
    cases i with
    | zero =>
      obtain rfl : place = found := by simpa using hi
      exact .inl hfault
    | succ i =>
      refine .inr ⟨hbefore 0 place (by omega) rfl, i, found, by simpa using hi, ?_, ?_⟩
      · rwa [Nat.add_right_comm, Nat.add_assoc]
      · intro k earlier hk hearlier
        have := hbefore (k + 1) earlier (by omega) (by simpa using hearlier)
        rwa [← Nat.add_assoc, Nat.add_right_comm] at this
  · rintro (hfault | ⟨hplace, i, found, hi, hfault, hbefore⟩)
    · exact ⟨0, place, rfl, hfault, fun k earlier hk => absurd hk (by omega)⟩
    · refine ⟨i + 1, found, by simpa using hi, ?_, ?_⟩
      · rwa [← Nat.add_assoc, Nat.add_right_comm]
      · intro k earlier hk hearlier
        cases k with
        | zero =>
          obtain rfl : place = earlier := by simpa using hearlier
          exact hplace
        | succ k =>
          have := hbefore k earlier (by omega) (by simpa using hearlier)
          rwa [← Nat.add_assoc, Nat.add_right_comm]

/-! ## Chains -/

namespace FilterChain

/-- Whether a value is a sequence of odd length in which triples and joins take turns. -/
def IsWire (j : Json) : Prop :=
  ∃ places : List Json, j = .array places ∧ places.length % 2 = 1 ∧
    ∀ i place, places[i]? = some place → ChainItem.IsWire i place

/-- The values that carry joins and filters, each join in front of its filter. -/
def restToWire : List (Join × Filter) → List Json
  | [] => []
  | (combine, f) :: rest => .string combine.token :: f.toWire :: restToWire rest

/-- The wire form of a chain begins with its first filter. -/
theorem toWire_eq (c : FilterChain) : c.toWire = .array (c.first.toWire :: restToWire c.rest) := by
  obtain ⟨first, rest⟩ := c
  simp only [toWire, items, List.map_cons, ChainItem.toWire, Json.array.injEq, List.cons.injEq,
    true_and]
  induction rest with
  | nil => rfl
  | cons pair rest ih => simp [restToWire, ChainItem.toWire, ih]

/-- Every further filter takes two places, one of them for its join. -/
theorem length_restToWire (rest : List (Join × Filter)) :
    (restToWire rest).length = 2 * rest.length := by
  induction rest with
  | nil => rfl
  | cons pair rest ih => simp [restToWire, ih, Nat.mul_add]

/-- From an odd place on, joins and filters stand where they belong. -/
theorem isWire_restToWire (rest : List (Join × Filter)) :
    ∀ position i place, position % 2 = 1 → (restToWire rest)[i]? = some place →
      ChainItem.IsWire (position + i) place := by
  induction rest with
  | nil => simp [restToWire]
  | cons pair rest ih =>
    obtain ⟨combine, f⟩ := pair
    intro position i place hodd h
    match i with
    | 0 =>
      obtain rfl : Json.string combine.token = place := by simpa [restToWire] using h
      exact (ChainItem.isWire_odd hodd).mpr (Join.isWire_token combine)
    | 1 =>
      obtain rfl : f.toWire = place := by simpa [restToWire] using h
      exact (ChainItem.isWire_even (by omega)).mpr f.isWire_toWire
    | i + 2 =>
      have := ih (position + 2) i place (by omega) (by simpa [restToWire] using h)
      rwa [Nat.add_right_comm, Nat.add_assoc] at this

variable {position : ℕ} {j filter : Json} {places : List Json} {rest : List (Join × Filter)}
variable {fault : FilterFault}

/-- A join and a filter in front of more of them are read before these. -/
theorem restOfWire_cons_cons_eq_ok_iff :
    restOfWire position (j :: filter :: places) = .ok rest ↔
      ∃ combine f more, Join.ofJson? j = some combine ∧ Filter.ofWire filter = .ok f ∧
        restOfWire (position + 2) places = .ok more ∧ rest = (combine, f) :: more := by
  rw [restOfWire]
  cases Join.ofJson? j with
  | none => simp
  | some combine =>
    cases Filter.ofWire filter with
    | error fault => simp [bind, Except.bind]
    | ok f => cases restOfWire (position + 2) places <;> simp [bind, Except.bind, eq_comm]

/-- The leftmost of a join, a filter and what is behind them decides about the fault. -/
theorem restOfWire_cons_cons_eq_error_iff :
    restOfWire position (j :: filter :: places) = .error fault ↔
      Join.ofJson? j = none ∧ fault = .notAJoin position j ∨
        Join.IsWire j ∧ (Filter.ofWire filter = .error fault ∨
          Filter.IsWire filter ∧ restOfWire (position + 2) places = .error fault) := by
  rw [restOfWire, ← Join.exists_ofJson?_iff, ← Filter.exists_ofWire_iff]
  cases Join.ofJson? j with
  | none => simp [eq_comm]
  | some combine =>
    cases Filter.ofWire filter with
    | error fault => simp [bind, Except.bind]
    | ok f => cases restOfWire (position + 2) places <;> simp [bind, Except.bind]

/-- The joins and filters behind the first filter are read from the values that carry them and from
no others. -/
theorem restOfWire_eq_ok_iff :
    restOfWire position places = .ok rest ↔ places = restToWire rest := by
  induction rest generalizing position places with
  | nil =>
    match places with
    | [] => simp [restOfWire, restToWire]
    | [j] => simp [restOfWire, restToWire]
    | j :: filter :: places => simp [restOfWire_cons_cons_eq_ok_iff, restToWire]
  | cons pair rest ih =>
    obtain ⟨combine, f⟩ := pair
    match places with
    | [] => simp [restOfWire, restToWire]
    | [j] => simp [restOfWire, restToWire]
    | j :: filter :: places =>
      simp only [restOfWire_cons_cons_eq_ok_iff, restToWire, Join.ofJson?_eq_some_iff,
        Filter.ofWire_eq_ok_iff, List.cons.injEq, Prod.mk.injEq]
      constructor
      · rintro ⟨_, _, _, rfl, rfl, hmore, ⟨rfl, rfl⟩, rfl⟩
        exact ⟨rfl, rfl, ih.mp hmore⟩
      · rintro ⟨rfl, rfl, hmore⟩
        exact ⟨combine, f, rest, rfl, rfl, ih.mpr hmore, ⟨rfl, rfl⟩, rfl⟩

/-- Behind the first filter the leftmost place without its shape is reported. -/
theorem restOfWire_eq_error_iff (fault : FilterFault) :
    ∀ position places, position % 2 = 1 → places.length % 2 = 0 →
      (restOfWire position places = .error fault ↔ FirstFault position places fault)
  | position, [], _, _ => by simp [restOfWire, not_firstFault_nil]
  | position, [j], _, heven => by simp at heven
  | position, j :: filter :: more, hodd, heven => by
    have hmore := restOfWire_eq_error_iff fault (position + 2) more (by omega)
      (by rw [List.length_cons, List.length_cons] at heven; omega)
    have hjoin : (position + 1) % 2 = 0 := by omega
    -- the join is looked at before the filter behind it, and both before the places that follow
    rw [restOfWire_cons_cons_eq_error_iff, firstFault_cons, firstFault_cons,
      ChainItem.ofWire_eq_error_odd hodd, ChainItem.isWire_odd hodd,
      ChainItem.ofWire_eq_error_even hjoin, ChainItem.isWire_even hjoin, hmore]

/-- A sequence that begins with a text is read as a filter. -/
theorem ofWire_of_isText {head : Json} (more : List Json) (hhead : isText head = true) :
    ofWire (.array (head :: more)) = single <$> Filter.ofWire (.array (head :: more)) := by
  rw [ofWire, if_pos hhead]

/-- A sequence of odd length that does not begin with a text is read place by place. -/
theorem ofWire_of_odd {head : Json} {more : List Json} (hhead : isText head = false)
    (hodd : (head :: more).length % 2 = 1) :
    ofWire (.array (head :: more)) = (do
      let first ← Filter.ofWire head
      let rest ← restOfWire 1 more
      .ok ⟨first, rest⟩) := by
  rw [List.length_cons] at hodd
  rw [ofWire, hhead, if_neg (by simp), if_neg (by omega)]

/-- A chain that is written is read back. -/
theorem ofWire_toWire (c : FilterChain) : ofWire c.toWire = .ok c := by
  rw [toWire_eq, ofWire_of_odd rfl (by rw [List.length_cons, length_restToWire]; omega),
    Filter.ofWire_eq_ok_iff.mpr rfl, restOfWire_eq_ok_iff.mpr rfl]
  rfl

/-- A filter is read as the chain of itself. -/
theorem ofWire_filter (f : Filter) : ofWire f.toWire = .ok (single f) := by
  have hf : Filter.ofWire f.toWire = .ok f := Filter.ofWire_eq_ok_iff.mpr rfl
  rw [Filter.toWire] at hf ⊢
  rw [ofWire_of_isText _ rfl, hf]
  rfl

/-- A chain is read from the value that carries it and, when it is a single filter, from the value
that carries this filter; it is read from no other value. -/
theorem ofWire_eq_ok_iff {v : Json} {c : FilterChain} :
    ofWire v = .ok c ↔ v = c.toWire ∨ c.rest = [] ∧ v = c.first.toWire := by
  constructor
  · intro h
    unfold ofWire at h
    split at h
    case h_1 | h_3 => cases h
    case h_2 head more =>
      split at h
      · cases hf : Filter.ofWire (.array (head :: more)) with
        | error fault =>
          rw [hf] at h
          cases h
        | ok f =>
          rw [hf] at h
          cases h
          exact .inr ⟨rfl, Filter.ofWire_eq_ok_iff.mp hf⟩
      · split at h
        · cases h
        · cases hf : Filter.ofWire head <;> cases hr : restOfWire 1 more <;>
            simp only [hf, hr, bind, Except.bind] at h <;> cases h
          rw [toWire_eq, Filter.ofWire_eq_ok_iff.mp hf, restOfWire_eq_ok_iff.mp hr]
          exact .inl rfl
  · rintro (rfl | ⟨hrest, rfl⟩)
    · exact ofWire_toWire c
    · rw [ofWire_filter]
      obtain ⟨first, rest⟩ := c
      cases hrest
      rfl

theorem isWire_toWire (c : FilterChain) : IsWire c.toWire := by
  refine ⟨_, c.toWire_eq, by rw [List.length_cons, length_restToWire]; omega, ?_⟩
  intro i place h
  cases i with
  | zero =>
    obtain rfl : c.first.toWire = place := by simpa using h
    exact c.first.isWire_toWire
  | succ i =>
    have := isWire_restToWire c.rest 1 i place rfl (by simpa using h)
    rwa [Nat.add_comm] at this

/-- A sequence of odd length that does not begin with a text is refused for its leftmost place
without its shape. -/
theorem ofWire_eq_error_iff {head : Json} {more : List Json} {fault : FilterFault}
    (hhead : isText head = false) (hodd : (head :: more).length % 2 = 1) :
    ofWire (.array (head :: more)) = .error fault ↔ FirstFault 0 (head :: more) fault := by
  have heven : more.length % 2 = 0 := by
    rw [List.length_cons] at hodd
    omega
  rw [ofWire_of_odd hhead hodd, firstFault_cons, ChainItem.ofWire_eq_error_even rfl,
    ChainItem.isWire_even rfl, ← restOfWire_eq_error_iff fault _ more rfl heven,
    ← Filter.exists_ofWire_iff]
  cases Filter.ofWire head with
  | error fault => simp [bind, Except.bind]
  | ok f => cases restOfWire 1 more <;> simp [bind, Except.bind]

/-- A value of the shape of a chain is read, since no place of it is at fault. -/
theorem exists_ofWire_of_isWire {v : Json} (h : IsWire v) : ∃ c, ofWire v = .ok c := by
  obtain ⟨places, rfl, hodd, hplaces⟩ := h
  obtain _ | ⟨head, more⟩ := places
  · cases hodd
  have hhead : isText head = false := by
    obtain ⟨field, operator, operand, rfl⟩ := hplaces 0 head rfl
    rfl
  cases hread : ofWire (.array (head :: more)) with
  | ok c => exact ⟨c, rfl⟩
  | error fault =>
    -- some place would have to be at fault
    obtain ⟨i, place, hi, hfault, -⟩ := (ofWire_eq_error_iff hhead hodd).mp hread
    rw [Nat.zero_add] at hfault
    exact absurd (hplaces i place hi) (ChainItem.not_isWire_of_ofWire_eq_error hfault)

/-- Exactly triples and sequences of the shape of a chain are read. -/
theorem exists_ofWire_iff {v : Json} : (∃ c, ofWire v = .ok c) ↔ Filter.IsWire v ∨ IsWire v := by
  constructor
  · rintro ⟨c, h⟩
    rcases ofWire_eq_ok_iff.mp h with rfl | ⟨-, rfl⟩
    · exact .inr c.isWire_toWire
    · exact .inl c.first.isWire_toWire
  · rintro (⟨field, operator, operand, rfl⟩ | h)
    · have : (⟨field, operator, .ofJson operand⟩ : Filter).toWire =
          .array [.string field, .string operator.token, operand] := by simp [Filter.toWire]
      exact this ▸ ⟨_, ofWire_filter _⟩
    · exact exists_ofWire_of_isWire h

/-! ## Reading as an operation -/

/-- Parsing accepts what the reader of chains accepts. -/
theorem parse_eq_ok_iff {v : Json} {c : FilterChain} : parse v = .ok c ↔ ofWire v = .ok c := by
  rw [parse, mapError_eq_ok_iff]

theorem parse_eq_error_iff {v : Json} {e : Error} :
    parse v = .error e ↔ ∃ fault, e = .malformedFilter fault ∧ ofWire v = .error fault := by
  rw [parse]
  constructor
  · intro h
    cases hread : ofWire v <;> rw [hread] at h <;> cases h
    exact ⟨_, rfl, rfl⟩
  · rintro ⟨fault, rfl, h⟩
    rw [h]
    rfl

/-- The reader of chains is exact:

* it accepts the triples and the sequences of odd length in which triples and joins take turns;
* what was read is written as it was, operands included, a bare triple as the sequence of itself;
* any other value is refused as a malformed filter;
* a sequence of odd length that does not begin with a text is refused for its leftmost place
  without its shape;
* every chain is read from the value that it is written as. -/
theorem parse_exact :
    (∀ v, (∃ c, parse v = .ok c) ↔ Filter.IsWire v ∨ IsWire v) ∧
    (∀ v c, parse v = .ok c →
      Filter.IsWire v ∧ c.toWire = .array [v] ∨ IsWire v ∧ c.toWire = v) ∧
    (∀ v e, parse v = .error e → ∃ fault, e = .malformedFilter fault) ∧
    (∀ places fault, places.length % 2 = 1 → (∀ text, places.head? ≠ some (.string text)) →
      (parse (.array places) = .error (.malformedFilter fault) ↔ FirstFault 0 places fault)) ∧
    ∀ c, parse c.toWire = .ok c := by
  refine ⟨?_, ?_, ?_, ?_, ?_⟩
  · intro v
    simp only [parse_eq_ok_iff, exists_ofWire_iff]
  · intro v c h
    rcases ofWire_eq_ok_iff.mp (parse_eq_ok_iff.mp h) with rfl | ⟨hrest, rfl⟩
    · exact .inr ⟨c.isWire_toWire, rfl⟩
    · exact .inl ⟨c.first.isWire_toWire, by rw [toWire_eq, hrest, restToWire]⟩
  · intro v e h
    obtain ⟨fault, rfl, -⟩ := parse_eq_error_iff.mp h
    exact ⟨fault, rfl⟩
  · intro places fault hodd hhead
    obtain _ | ⟨head, more⟩ := places
    · cases hodd
    have htext : isText head = false := by
      cases head with
      | string text => exact absurd rfl (hhead text)
      | _ => rfl
    rw [parse_eq_error_iff, ← ofWire_eq_error_iff htext hodd]
    simp
  · intro c
    exact parse_eq_ok_iff.mpr c.ofWire_toWire

/-- A triple whose operand is nested. -/
def nestedTriple : Json :=
  .array [.string "owner", .string "has", .object [("in", .array [.null, .array []])]]

/-- The nested triple is read and written as the sequence of itself, and with a false join behind it
a chain is refused for the join, not for the value behind that. -/
theorem nestedTriple_parse_exact :
    (∃ c, parse nestedTriple = .ok c ∧ c.toWire = .array [nestedTriple]) ∧
      parse (.array [nestedTriple, .string "xor", .null]) =
        .error (.malformedFilter (.notAJoin 1 (.string "xor"))) := by
  obtain ⟨hread, hwritten, -, hfault, -⟩ := parse_exact
  have hshape : Filter.IsWire nestedTriple := ⟨_, .has, _, rfl⟩
  constructor
  · obtain ⟨c, hc⟩ := (hread nestedTriple).mpr (.inl hshape)
    rcases hwritten nestedTriple c hc with ⟨-, h⟩ | ⟨⟨places, hplaces, -, heven⟩, -⟩
    · exact ⟨c, hc, h⟩
    · -- a triple begins with a text, where a chain has a filter
      cases hplaces
      obtain ⟨_, _, _, h⟩ := heven 0 _ rfl
      cases h
  · refine (hfault _ _ rfl (by simp [nestedTriple])).mpr ⟨1, .string "xor", rfl, rfl, ?_⟩
    intro k earlier hk hearlier
    obtain rfl : k = 0 := by omega
    cases hearlier
    exact hshape

end FilterChain

end RemoteTable
