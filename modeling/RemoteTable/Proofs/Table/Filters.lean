import Mathlib.Data.List.Forall2
import RemoteTable.Proofs.Filter.Wire
import RemoteTable.Proofs.Selection.History
import RemoteTable.Proofs.Selection.Order

/-!
# Filters on their way to the server

What is sent for the filters of a document is the document's own sequence of places, in which every
triple has the wire name of its field and nothing else is changed (`QualifiedPlace`). A table sends it
with one request, whether records are searched, listed or counted
(`Table.filters_sent_qualified`).
-/

namespace RemoteTable

/-! ## Wire names -/

/-- Whether a name has a point or begins with `#`, as names on the wire do. -/
def IsWireName (name : String) : Prop :=
  '.' ∈ name.toList ∨ name.toList.head? = some '#'

/-- Qualifying makes a wire name. -/
theorem isWireName_qualify (table name : String) : IsWireName (qualify table name) := by
  unfold qualify
  split
  case isTrue h => exact (isQualified_iff name).mp h
  case isFalse => exact .inl (by simp)

/-- A wire name is not qualified again. -/
theorem qualify_of_isWireName (table : String) {name : String} (h : IsWireName name) :
    qualify table name = name :=
  if_pos ((isQualified_iff name).mpr h)

/-! ## Places of a document -/

/-- How a place of a document is sent: a triple has the wire name of its field, a join is kept. -/
inductive QualifiedPlace (table : String) : Json → Json → Prop
  /-- The operator and the operand are kept, whatever they look like. -/
  | triple (field : String) (operator operand : Json) :
    QualifiedPlace table (.array [.string field, operator, operand])
      (.array [.string (qualify table field), operator, operand])
  /-- A join is not a field name, whatever its text. -/
  | join (token : String) : QualifiedPlace table (.string token) (.string token)

namespace QualifiedPlace

variable {table : String} {place sent : Json} {places sents : List Json}

/-- The wire form of a qualified item is the qualified place. -/
theorem of_item (table : String) (item : ChainItem) :
    QualifiedPlace table item.toWire (item.qualify table).toWire := by
  cases item with
  | filter f => exact .triple f.field (.string f.operator.token) f.value.toJson
  | join j => exact .join j.token

/-- The first element of a triple that is sent is a wire name. -/
theorem isWireName {field : String} {operator operand : Json} (h : QualifiedPlace table place sent)
    (hsent : sent = .array [.string field, operator, operand]) : IsWireName field := by
  cases h with
  | triple name =>
    cases hsent
    exact isWireName_qualify table name
  | join => cases hsent

/-- A triple with a wire name is sent as it is. -/
theorem eq_of_isWireName (h : QualifiedPlace table place sent)
    (hname : ∀ field operator operand, place = .array [.string field, operator, operand] →
      IsWireName field) : sent = place := by
  cases h with
  | triple field operator operand =>
    rw [qualify_of_isWireName table (hname field operator operand rfl)]
  | join => rfl

/-- Every triple that is sent has a wire name. -/
theorem isWireName_of_mem (h : List.Forall₂ (QualifiedPlace table) places sents)
    {field : String} {operator operand : Json}
    (hmem : .array [.string field, operator, operand] ∈ sents) : IsWireName field := by
  induction h with
  | nil => cases hmem
  | cons hplace _ ih =>
    rcases List.mem_cons.mp hmem with heq | hmem
    · exact hplace.isWireName heq.symm
    · exact ih hmem

/-- Places whose triples all have wire names are sent as they are. -/
theorem eq_of_forall_isWireName (h : List.Forall₂ (QualifiedPlace table) places sents)
    (hnames : ∀ field operator operand, .array [.string field, operator, operand] ∈ places →
      IsWireName field) : sents = places := by
  induction h with
  | nil => rfl
  | cons hplace _ ih =>
    have hhead := hplace.eq_of_isWireName fun field operator operand heq =>
      hnames field operator operand (heq ▸ List.mem_cons_self)
    have htail := ih fun field operator operand hmem =>
      hnames field operator operand (List.mem_cons_of_mem _ hmem)
    rw [hhead, htail]

end QualifiedPlace

namespace FilterChain

/-- The places of a chain are sent with wire names, one for one. -/
theorem forall₂_qualify (table : String) (c : FilterChain) :
    List.Forall₂ (QualifiedPlace table) (c.items.map ChainItem.toWire)
      ((c.qualify table).items.map ChainItem.toWire) := by
  rw [items_qualify, List.map_map, List.forall₂_map_left_iff, List.forall₂_map_right_iff,
    List.forall₂_same]
  exact fun item _ => .of_item table item

/-- A document that is read as a chain is the sequence of the chain's places, or it is the only one
of them. -/
theorem places_of_parse {v : Json} {c : FilterChain} (h : parse v = .ok c) :
    Filter.IsWire v ∧ c.items.map ChainItem.toWire = [v] ∨
      IsWire v ∧ v = .array (c.items.map ChainItem.toWire) := by
  rcases ofWire_eq_ok_iff.mp (parse_eq_ok_iff.mp h) with rfl | ⟨hrest, rfl⟩
  · exact .inr ⟨c.isWire_toWire, rfl⟩
  · refine .inl ⟨c.first.isWire_toWire, ?_⟩
    obtain ⟨first, rest⟩ := c
    cases hrest
    rfl

end FilterChain

/-! ## Requests with filters -/

namespace Table

variable (t : Table)

theorem filter_eq_single (filters : FilterChain) :
    t.filter filters = Call.single (t.addressed (t.filterRequest filters)) fun reply =>
      accepted (t.filterRequest filters) reply >>= fun response => t.select <$> response.ids := by
  have hrest : ∀ response : Response,
      (Call.ofExcept response.ids >>= fun ids => (pure (t.select ids) : Call Selection)) =
        Call.ofExcept (t.select <$> response.ids) := by
    intro response
    cases response.ids <;> rfl
  show t.call _ >>= _ = _
  rw [call_eq_single, Call.single_bind hrest]

/-- The filters of a document are sent as they stand there, but for the names of the fields. For a
document that is read as filters:

* its places, of which a bare triple is the only one, are sent in their order, each triple with the
  wire name of its field and with its operator and operand, each join as it is;
* so every field name that is sent has a point or begins with `#`, and a document with such names only
  is sent unchanged;
* a search for the records is one request, which asks for the identifiers and carries these places;
* a list of the history records and their number are one request each, with the same places. -/
theorem filters_sent_qualified {v : Json} {filters : FilterChain}
    (hread : FilterChain.parse v = .ok filters) :
    ∃ places sent : List Json,
      (Filter.IsWire v ∧ places = [v] ∨ FilterChain.IsWire v ∧ v = .array places) ∧
      List.Forall₂ (QualifiedPlace t.name) places sent ∧
      (∀ field operator operand, .array [.string field, operator, operand] ∈ sent →
        IsWireName field) ∧
      ((∀ field operator operand, .array [.string field, operator, operand] ∈ places →
        IsWireName field) → sent = places) ∧
      (∃ request result, t.filter filters = Call.single request result ∧
        request.get? "sign_array" = some (.array [.string (t.name ++ ".id")]) ∧
        request.get? "sign_filter_array" = some (.array sent)) ∧
      (∃ request result, t.historyRecords filters = Call.single request result ∧
        request.get? "filter_array" = some (.array sent)) ∧
      ∃ request result, t.historyCount filters = Call.single request result ∧
        request.get? "filter_array" = some (.array sent) := by
  have hsent := FilterChain.forall₂_qualify t.name filters
  have hid : t.field "id" = t.name ++ ".id" := field_of_not_isQualified (by decide)
  refine ⟨_, _, ?_, hsent, fun _ _ _ => QualifiedPlace.isWireName_of_mem hsent,
    QualifiedPlace.eq_of_forall_isWireName hsent, ⟨_, _, t.filter_eq_single filters, ?_, ?_⟩,
    ⟨_, _, t.historyRecords_eq_single filters, ?_⟩, ⟨_, _, t.historyCount_eq_single filters, ?_⟩⟩
  · exact FilterChain.places_of_parse hread
  · rw [get?_addressed _ _ (by decide)]
    simp [filterRequest, Request.get?_param, hid, Json.ofTexts]
  · rw [get?_addressed _ _ (by decide), filterRequest, Request.get?_param, if_pos rfl]
    rfl
  · rw [get?_addressed _ _ (by decide), recordsRequest, Request.get?_param, if_pos rfl]
    rfl
  · rw [get?_addressed _ _ (by decide), countRequest, Request.get?_param, if_pos rfl]
    rfl

/-- A short name, a name behind that of a table, and operands that look like names and joins. -/
def lookalikes (artist : String) : Json :=
  .array [.array [.string artist, .string "=", .string "artist"], .string "or",
    .array [.string "shot.shot", .string "in", .array [.string "or", .string "#id"]]]

/-- Only the short name in front of its triple is changed on the way. -/
theorem lookalikes_filters_sent_qualified :
    ∃ filters, FilterChain.parse (lookalikes "artist") = .ok filters ∧
      ∃ request result, Table.filter ⟨"task", ⟨"db", ⟨none, none⟩⟩, none⟩ filters =
          Call.single request result ∧
        request.get? "sign_filter_array" = some (lookalikes "task.artist") := by
  obtain ⟨filters, hread⟩ : ∃ filters, FilterChain.parse (lookalikes "artist") = .ok filters :=
    ⟨_, rfl⟩
  obtain ⟨places, sent, hplaces, hsent, -, -, ⟨request, result, hsingle, -, hrequest⟩, -⟩ :=
    filters_sent_qualified ⟨"task", ⟨"db", ⟨none, none⟩⟩, none⟩ hread
  refine ⟨filters, hread, request, result, hsingle, ?_⟩
  rw [hrequest]
  rcases hplaces with ⟨⟨_, _, _, hshape⟩, -⟩ | ⟨-, hshape⟩
  · -- the document begins with a triple and not with a text
    cases hshape
  · cases hshape
    obtain _ | ⟨hartist, _ | ⟨hjoin, _ | ⟨hshot, _ | _⟩⟩⟩ := hsent
    cases hartist
    cases hjoin
    cases hshot
    rfl

end Table

end RemoteTable
