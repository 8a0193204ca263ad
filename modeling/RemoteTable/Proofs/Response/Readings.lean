import Mathlib.Data.List.Forall2
import RemoteTable.Proofs.Response

/-!
# What the readings of a reply accept

Each reading of the data of a successful reply returns what the reply carries, accepts no other reply,
and says of those that it does not accept that they are of an unexpected shape (`Response.Reads`). The
shapes are rows of one width, also as records, identifiers, a count, named values and the settings of
a filebox.
-/

namespace RemoteTable

/-! ## Checks of every element -/

/-- Two steps succeed if the first one does, and the second one with its result. -/
theorem bind_eq_ok_iff {ε α β : Type} {x : Except ε α} {f : α → Except ε β} {b : β} :
    x >>= f = .ok b ↔ ∃ a, x = .ok a ∧ f a = .ok b := by
  cases x with
  | error e =>
    constructor
    · intro h
      cases h
    · rintro ⟨a, ha, -⟩
      cases ha
  | ok a =>
    constructor
    · exact fun h => ⟨a, rfl, h⟩
    · rintro ⟨a', ha, h⟩
      cases ha
      exact h

theorem map_eq_ok_iff {ε α β : Type} {x : Except ε α} {f : α → β} {b : β} :
    f <$> x = .ok b ↔ ∃ a, x = .ok a ∧ f a = b := by
  cases x with
  | error e =>
    constructor
    · intro h
      cases h
    · rintro ⟨a, ha, -⟩
      cases ha
  | ok a =>
    constructor
    · exact fun h => ⟨a, rfl, Except.ok.inj h⟩
    · rintro ⟨a', ha, rfl⟩
      cases ha
      rfl

/-- A check of every element succeeds element for element. -/
theorem mapM_eq_ok_iff {ε α β : Type} {f : α → Except ε β} {l : List α} {bs : List β} :
    l.mapM f = .ok bs ↔ List.Forall₂ (fun a b => f a = .ok b) l bs := by
  induction l generalizing bs with
  | nil =>
    rw [List.mapM_nil, List.forall₂_nil_left_iff]
    constructor
    · intro h
      cases h
      rfl
    · rintro rfl
      rfl
  | cons a l ih =>
    simp only [List.mapM_cons, bind_eq_ok_iff, ih, List.forall₂_cons_left_iff]
    constructor
    · rintro ⟨b, hb, bs, hbs, h⟩
      cases h
      exact ⟨b, bs, hb, hbs, rfl⟩
    · rintro ⟨b, bs, hb, hbs, rfl⟩
      exact ⟨b, hb, bs, hbs, rfl⟩

/-- Whether a check fails only because of data of an unexpected shape. -/
def FailsUnexpected {α : Type} (x : Except Error α) : Prop :=
  ∀ e, x = .error e → ∃ fault, e = .unexpectedResponse fault

section

variable {α β : Type} {f : α → Except Error β} {l : List α}

namespace FailsUnexpected

/-- A success is no failure. -/
theorem ok (a : α) : FailsUnexpected (.ok a) := by
  intro e h
  cases h

theorem unexpected (fault : ReplyFault) :
    FailsUnexpected (.error (.unexpectedResponse fault) : Except Error α) := by
  intro e h
  cases h
  exact ⟨fault, rfl⟩

/-- Two steps that fail for the reply alone do so together. -/
theorem bind {x : Except Error α} (hx : FailsUnexpected x) (hf : ∀ a, FailsUnexpected (f a)) :
    FailsUnexpected (x >>= f) := by
  cases x with
  | ok a => exact hf a
  | error e =>
    obtain ⟨fault, rfl⟩ := hx e rfl
    exact unexpected fault

theorem map {x : Except Error α} (hx : FailsUnexpected x) (g : α → β) :
    FailsUnexpected (g <$> x) := by
  cases x with
  | ok a => exact ok (g a)
  | error e =>
    obtain ⟨fault, rfl⟩ := hx e rfl
    exact unexpected fault

/-- Checks of elements that fail for the reply alone do so together. -/
theorem mapM (hf : ∀ a, FailsUnexpected (f a)) : FailsUnexpected (l.mapM f) := by
  induction l with
  | nil => exact ok []
  | cons a l ih =>
    rw [List.mapM_cons]
    exact bind (hf a) fun b => bind ih fun bs => ok (b :: bs)

/-- Such a check that does not succeed fails because of an unexpected shape. -/
theorem exists_error {x : Except Error α} (hx : FailsUnexpected x) (hnone : ∀ a, x ≠ .ok a) :
    ∃ fault, x = .error (.unexpectedResponse fault) := by
  cases x with
  | ok a => exact absurd rfl (hnone a)
  | error e =>
    obtain ⟨fault, rfl⟩ := hx e rfl
    exact ⟨fault, rfl⟩

end FailsUnexpected

end

namespace Response

variable {r : Response}

/-- Whether a reading of successful replies returns what they carry, and takes all other ones for
unexpected responses. -/
structure Reads {α : Type} (read : Response → Except Error α) (carries : Response → α → Prop) :
    Prop where
  /-- What is returned is what the reply carries. -/
  ok_iff : ∀ {r : Response} {a : α}, r.isSuccess = true → (read r = .ok a ↔ carries r a)
  /-- Any failure is that of an unexpected response. -/
  fails : ∀ r : Response, FailsUnexpected (read r)

/-- A reply that carries nothing is an unexpected response. -/
theorem Reads.exists_error {α : Type} {read : Response → Except Error α}
    {carries : Response → α → Prop} (h : Reads read carries) (hsuccess : r.isSuccess = true)
    (hnone : ∀ a, ¬ carries r a) : ∃ fault, read r = .error (.unexpectedResponse fault) :=
  (h.fails r).exists_error fun a hread => hnone a ((h.ok_iff hsuccess).mp hread)

namespace Reads

variable {α β : Type} {read : Response → Except Error α} {carries : Response → α → Prop}

/-- What every reply has is read from every reply. -/
theorem of_total (part : Response → α) : Reads (fun r => .ok (part r)) fun r a => a = part r where
  ok_iff _ := ⟨fun h => (Except.ok.inj h).symm, congrArg Except.ok ∘ Eq.symm⟩
  fails r := .ok (part r)

/-- What is read can be examined further. -/
theorem bind (h : Reads read carries) {f : α → Except Error β} (hf : ∀ a, FailsUnexpected (f a)) :
    Reads (fun r => read r >>= f) fun r b => ∃ a, carries r a ∧ f a = .ok b where
  ok_iff hsuccess := by
    rw [bind_eq_ok_iff]
    exact exists_congr fun a => and_congr_left fun _ => h.ok_iff hsuccess
  fails r := (h.fails r).bind hf

/-- What is read can be converted. -/
theorem map (h : Reads read carries) (f : α → β) :
    Reads (fun r => f <$> read r) fun r b => ∃ a, carries r a ∧ f a = b where
  ok_iff hsuccess := by
    rw [map_eq_ok_iff]
    exact exists_congr fun a => and_congr_left fun _ => h.ok_iff hsuccess
  fails r := (h.fails r).map f

/-- The same can be said in other words. -/
theorem congr (h : Reads read carries) {carries' : Response → α → Prop}
    (hcarries : ∀ r a, carries r a ↔ carries' r a) : Reads read carries' where
  ok_iff hsuccess := (h.ok_iff hsuccess).trans (hcarries _ _)
  fails := h.fails

end Reads

/-! ## Rows -/

/-- A row is a sequence of data. -/
theorem row_eq_ok_iff {item : Json} {cells : List Datum} :
    row item = .ok cells ↔ item = .array (Datum.toItems cells) := by
  constructor
  · intro h
    cases item with
    | array items =>
      obtain rfl : Datum.ofItems items = cells := Except.ok.inj h
      rw [Datum.toItems_ofItems]
    | null | boolean | number | string | object => cases h
  · rintro rfl
    rw [row, Datum.ofItems_toItems]

theorem failsUnexpected_row (item : Json) : FailsUnexpected (row item) := by
  cases item with
  | array => exact .ok _
  | null | boolean | number | string | object => exact .unexpected _

/-- Values that are rows one by one are the values of these rows. -/
theorem forall₂_row_iff {items : List Json} {rows : List (List Datum)} :
    List.Forall₂ (fun item cells => item = .array (Datum.toItems cells)) items rows ↔
      items = rows.map fun row => .array (Datum.toItems row) := by
  rw [← List.forall₂_eq_eq_eq, List.forall₂_map_right_iff]

/-- Rows are read from a sequence of rows, and none from data that say nothing. -/
theorem rows_eq_ok_iff {rows : List (List Datum)} :
    r.rows = .ok rows ↔ r.data = .array (rows.map fun row => .array (Datum.toItems row)) ∨
      rows = [] ∧ (r.data = .null ∨ r.data = .string "") := by
  unfold Response.rows
  split
  case h_1 hdata => simp [hdata, eq_comm]
  case h_2 hdata => simp [hdata, eq_comm]
  case h_3 items hdata => simp [mapM_eq_ok_iff, row_eq_ok_iff, forall₂_row_iff, hdata]
  case h_4 other hnull hempty harray =>
    constructor
    · intro h
      cases h
    · rintro (hdata | ⟨-, hdata | hdata⟩)
      · exact absurd hdata (harray _)
      · exact absurd hdata hnull
      · exact absurd hdata hempty

theorem failsUnexpected_rows (r : Response) : FailsUnexpected r.rows := by
  unfold Response.rows
  split
  case h_3 => exact .mapM failsUnexpected_row
  case h_4 => exact .unexpected _
  all_goals exact .ok []

/-- Rows that are read are rows of a width if they all have it. -/
theorem carriesRows_iff {width : ℕ} {rows : List (List Datum)} (h : r.isSuccess = true) :
    r.CarriesRows width rows ↔ r.rows = .ok rows ∧ ∀ row ∈ rows, row.length = width :=
  ⟨fun hrows => ⟨hrows.rows_eq, hrows.width⟩,
    fun ⟨hrows, hwidth⟩ => ⟨h, rows_eq_ok_iff.mp hrows, hwidth⟩⟩

/-- A reading of rows that takes the rows of one width. -/
theorem Reads.of_rows {α : Type} {width : ℕ} {f : List (List Datum) → Except Error α}
    {made : List (List Datum) → α → Prop}
    (hf : ∀ rows a, f rows = .ok a ↔ (∀ row ∈ rows, row.length = width) ∧ made rows a)
    (hfails : ∀ rows, FailsUnexpected (f rows)) :
    Reads (fun r => r.rows >>= f) fun r a => ∃ rows, r.CarriesRows width rows ∧ made rows a where
  ok_iff hsuccess := by
    rw [bind_eq_ok_iff]
    refine exists_congr fun rows => ?_
    rw [carriesRows_iff hsuccess, hf, and_assoc]
  fails r := (failsUnexpected_rows r).bind hfails

/-! ## Identifiers -/

/-- How a value spells an identifier: as a text, or as a number. -/
inductive SpellsIdentifier : Json → String → Prop
  /-- A text is the identifier. -/
  | text (id : String) : SpellsIdentifier (.string id) id
  /-- A number has a text. -/
  | number (n : Number) : SpellsIdentifier (.number n) n.text

/-- How an element of a list has an identifier: as the value itself or in front of a row. -/
inductive HasIdentifier : Json → String → Prop
  /-- The element is the identifier. -/
  | value {item : Json} {id : String} (h : SpellsIdentifier item id) : HasIdentifier item id
  /-- The first cell of the row is the identifier. -/
  | row {cell : Json} {cells : List Json} {id : String} (h : SpellsIdentifier cell id) :
    HasIdentifier (.array (cell :: cells)) id

/-- Whether a reply is successful and its data are a list of elements with identifiers, or what
stands for no identifiers. -/
structure CarriesIdentifiers (r : Response) (ids : List String) : Prop where
  /-- The method succeeded. -/
  success : r.isSuccess = true
  /-- Every element of the data has an identifier. -/
  data : (∃ items, r.data = .array items ∧ List.Forall₂ HasIdentifier items ids) ∨
    ids = [] ∧ (r.data = .null ∨ r.data = .string "")

/-- An identifier is read from what has it. -/
theorem identifier_eq_ok_iff {item : Json} {id : String} :
    identifier item = .ok id ↔ HasIdentifier item id := by
  constructor
  · intro h
    match item, h with
    | .string _, rfl => exact .value (.text id)
    | .number n, rfl => exact .value (.number n)
    | .array (.string _ :: _), rfl => exact .row (.text id)
    | .array (.number n :: _), rfl => exact .row (.number n)
  · rintro (⟨⟨⟩ | ⟨⟩⟩ | ⟨⟨⟩ | ⟨⟩⟩) <;> rfl

theorem failsUnexpected_identifier (item : Json) : FailsUnexpected (identifier item) := by
  unfold identifier
  dsimp only
  split
  case h_3 => exact .unexpected _
  all_goals exact .ok _

/-- Identifiers are read from a sequence, and none from data that say nothing. -/
theorem ids_eq_ok_iff {ids : List String} :
    r.ids = .ok ids ↔ (∃ items, r.data = .array items ∧ List.Forall₂ HasIdentifier items ids) ∨
      ids = [] ∧ (r.data = .null ∨ r.data = .string "") := by
  unfold Response.ids
  split
  case h_1 hdata => simp [hdata, eq_comm]
  case h_2 hdata => simp [hdata, eq_comm]
  case h_3 items hdata => simp [mapM_eq_ok_iff, identifier_eq_ok_iff, hdata]
  case h_4 other hnull hempty harray =>
    constructor
    · intro h
      cases h
    · rintro (⟨items, hdata, -⟩ | ⟨-, hdata | hdata⟩)
      · exact absurd hdata (harray _)
      · exact absurd hdata hnull
      · exact absurd hdata hempty

theorem reads_ids : Reads ids CarriesIdentifiers where
  ok_iff h := ids_eq_ok_iff.trans ⟨fun hdata => ⟨h, hdata⟩, CarriesIdentifiers.data⟩
  fails := by
    intro r
    unfold Response.ids
    split
    case h_3 => exact .mapM failsUnexpected_identifier
    case h_4 => exact .unexpected _
    all_goals exact .ok []

/-! ## Counts -/

/-- A number that counts is a whole one of 64 bits. -/
theorem toNat?_eq_some {n : Number} {k : ℕ} (h : n.toNat? = some k) :
    Json.number n = .ofNat k ∧ k < unsignedEnd := by
  cases n with
  | double => cases h
  | integer n =>
    obtain ⟨val, hrange⟩ := n
    obtain ⟨hnonneg, hk⟩ : 0 ≤ val ∧ val.toNat = k := by simpa [Number.toNat?] using h
    obtain rfl : val = k := by omega
    rw [Json.ofNat, Json.ofInt, WireInt.ofInt?, dif_pos hrange]
    exact ⟨rfl, by omega⟩

theorem reads_count : Reads count CarriesCount where
  ok_iff := by
    intro r n hsuccess
    constructor
    · intro h
      unfold count at h
      split at h
      case h_1 number hdata =>
        cases hnumber : number.toNat? with
        | none =>
          rw [hnumber] at h
          cases h
        | some k =>
          rw [hnumber] at h
          cases h
          obtain ⟨heq, hlt⟩ := toNat?_eq_some hnumber
          exact ⟨hsuccess, hlt, .inl (hdata.trans heq)⟩
      case h_2 text hdata =>
        cases hnumeral : unsigned64? (trimBlanks text.toList) with
        | none =>
          rw [hnumeral] at h
          cases h
        | some k =>
          rw [hnumeral] at h
          cases h
          obtain ⟨hspelled, hlt⟩ := spelledNat_of_unsigned64? hnumeral
          exact ⟨hsuccess, hlt, .inr ⟨text, hdata, hspelled⟩⟩
      case h_3 => cases h
    · exact CarriesCount.count_eq
  fails := by
    intro r
    unfold count
    split
    case h_3 => exact .unexpected _
    all_goals
      split
      · exact .ok _
      · exact .unexpected _

/-! ## Named values -/

/-- Whether a reply is successful and its data are named values. -/
structure CarriesMembers (r : Response) (members : Members Datum) : Prop where
  /-- The method succeeded. -/
  success : r.isSuccess = true
  /-- The data are an object with these members. -/
  data : r.data = .object (Datum.toMembers members)

theorem reads_object : Reads object CarriesMembers where
  ok_iff := by
    intro r members hsuccess
    constructor
    · intro h
      unfold object at h
      split at h
      case h_1 found hdata =>
        obtain rfl : Datum.ofMembers found = members := Except.ok.inj h
        exact ⟨hsuccess, by rw [hdata, Datum.toMembers_ofMembers]⟩
      case h_2 => cases h
    · intro h
      rw [object, h.data]
      exact congrArg Except.ok (Datum.ofMembers_toMembers members)
  fails := by
    intro r
    unfold object
    split
    · exact .ok _
    · exact .unexpected _

end Response

/-! ## Records -/

namespace Record

/-- Whether records are read from exactly the rows of their width, with the plain texts of the cells
as their members. -/
class Lawful (α : Type) [Record α] : Prop where
  /-- A record has one member for each field. -/
  length_toTexts : ∀ a : α, (toTexts a).length = (fields α).length
  /-- A record is made of its own members and of no other texts. -/
  ofTexts?_eq_some_iff : ∀ {texts : List String} {a : α}, ofTexts? texts = some a ↔ texts = toTexts a
  /-- Texts of the right number make a record. -/
  exists_ofTexts? : ∀ {texts : List String}, texts.length = (fields α).length →
    ∃ a : α, ofTexts? texts = some a

instance : Lawful Pipeline where
  length_toTexts _ := rfl
  ofTexts?_eq_some_iff := by
    intro texts a
    constructor
    · intro h
      match texts, h with
      | [_, _, _], h =>
        cases h
        rfl
    · rintro rfl
      rfl
  exists_ofTexts? := by
    intro texts h
    match texts, h with
    | [_, _, _], _ => exact ⟨_, rfl⟩

instance : Lawful HistoryRecord where
  length_toTexts _ := rfl
  ofTexts?_eq_some_iff := by
    intro texts a
    constructor
    · intro h
      match texts, h with
      | [_, _, _, _, _, _, _, _, _], h =>
        cases h
        rfl
    · rintro rfl
      rfl
  exists_ofTexts? := by
    intro texts h
    match texts, h with
    | [_, _, _, _, _, _, _, _, _], _ => exact ⟨_, rfl⟩

variable {α : Type} [Record α] {row : List Datum}

/-- A record is read from a row with the texts of its fields. -/
theorem ofRow_eq_ok_iff [Lawful α] {a : α} :
    ofRow row = .ok a ↔ row.map Datum.plain = toTexts a := by
  rw [← Lawful.ofTexts?_eq_some_iff, ofRow]
  cases (ofTexts? (row.map Datum.plain) : Option α) with
  | none =>
    constructor
    · intro h
      cases h
    · intro h
      cases h
  | some b => rw [Except.ok.injEq, Option.some.injEq]

theorem failsUnexpected_ofRow (row : List Datum) :
    FailsUnexpected (ofRow row : Except Error α) := by
  unfold ofRow
  split
  · exact .ok _
  · exact .unexpected _

/-- Whether a reply is successful and its data are rows of the width of a record, the plain texts of
whose cells are the members of the records. -/
def Carries (r : Response) (records : List α) : Prop :=
  ∃ rows, r.CarriesRows (fields α).length rows ∧
    rows.map (List.map Datum.plain) = records.map toTexts

/-- Records are read from rows of their width, one from each. -/
theorem mapM_ofRow_eq_ok_iff [Lawful α] {rows : List (List Datum)} {records : List α} :
    rows.mapM ofRow = .ok records ↔ (∀ row ∈ rows, row.length = (fields α).length) ∧
      rows.map (List.map Datum.plain) = records.map toTexts := by
  have hforall : List.Forall₂ (fun row record => row.map Datum.plain = toTexts record) rows records ↔
      rows.map (List.map Datum.plain) = records.map toTexts := by
    rw [← @List.forall₂_eq_eq_eq (List String), List.forall₂_map_left_iff,
      List.forall₂_map_right_iff]
  simp only [mapM_eq_ok_iff, ofRow_eq_ok_iff]
  rw [hforall, iff_and_self]
  -- a row has as many cells as its record has members
  intro h row hrow
  have hmem := List.mem_map_of_mem (f := List.map Datum.plain) hrow
  rw [h] at hmem
  obtain ⟨record, -, heq⟩ := List.mem_map.mp hmem
  rw [← Lawful.length_toTexts record, heq, List.length_map]

theorem reads_ofResponse [Lawful α] :
    Response.Reads (ofResponse : Response → Except Error (List α)) Carries :=
  .of_rows (fun _ _ => mapM_ofRow_eq_ok_iff) fun _ => .mapM failsUnexpected_ofRow

end Record

/-! ## Settings of fileboxes -/

namespace Filebox

/-- The keys of the settings of a filebox, all of which are required. -/
def keys : List String :=
  ["path", "classify", "title", "sign", "color", "rule", "rule_view", "is_submit",
    "is_move_old_to_history", "is_move_same_to_history", "is_in_history_add_version",
    "is_in_history_add_datetime", "is_cover_disable", "is_msg_to_first_qc"]

/-- The plain texts of the elements of a value; anything but a sequence has none. -/
def texts (d : Datum) : List String :=
  (d.items?.getD []).map Datum.plain

/-- Whether a value is the text of a set flag. -/
def isSet (d : Datum) : Bool :=
  d.text? == some "Y"

/-- The settings with given values for the keys. -/
def ofValues (value : String → Datum) : Filebox where
  path := (value "path").plain
  classify := (value "classify").plain
  title := (value "title").plain
  sign := (value "sign").plain
  color := (value "color").plain
  rule := texts (value "rule")
  ruleView := texts (value "rule_view")
  isSubmit := isSet (value "is_submit")
  isMoveOldToHistory := isSet (value "is_move_old_to_history")
  isMoveSameToHistory := isSet (value "is_move_same_to_history")
  isInHistoryAddVersion := isSet (value "is_in_history_add_version")
  isInHistoryAddDatetime := isSet (value "is_in_history_add_datetime")
  isCoverDisable := isSet (value "is_cover_disable")
  isMsgToFirstQc := isSet (value "is_msg_to_first_qc")

/-- Whether named values have all the keys of a filebox, with the values of its settings. -/
def Describes (members : Members Datum) (box : Filebox) : Prop :=
  ∃ value, (∀ key ∈ keys, members.get? key = some (value key)) ∧ box = ofValues value

variable {members : Members Datum}

theorem detail_eq_ok_iff {key : String} {d : Datum} :
    detail members key = .ok d ↔ members.get? key = some d := by
  unfold detail
  cases members.get? key with
  | none => simp
  | some found => simp

theorem failsUnexpected_detail (members : Members Datum) (key : String) :
    FailsUnexpected (detail members key) := by
  unfold detail
  split
  · exact .ok _
  · exact .unexpected _

/-- Settings of a filebox are read from the members that describe them. -/
theorem ofMembers_eq_ok_iff {box : Filebox} :
    ofMembers members = .ok box ↔ Describes members box := by
  constructor
  · intro h
    simp only [ofMembers, textDetail, listDetail, flagDetail, bind_eq_ok_iff, map_eq_ok_iff,
      detail_eq_ok_iff] at h
    obtain ⟨_, ⟨_, h₁, rfl⟩, _, ⟨_, h₂, rfl⟩, _, ⟨_, h₃, rfl⟩, _, ⟨_, h₄, rfl⟩, _, ⟨_, h₅, rfl⟩,
      _, ⟨_, h₆, rfl⟩, _, ⟨_, h₇, rfl⟩, _, ⟨_, h₈, rfl⟩, _, ⟨_, h₉, rfl⟩, _, ⟨_, h₁₀, rfl⟩,
      _, ⟨_, h₁₁, rfl⟩, _, ⟨_, h₁₂, rfl⟩, _, ⟨_, h₁₃, rfl⟩, _, ⟨_, h₁₄, rfl⟩, hbox⟩ := h
    refine ⟨fun key => (members.get? key).getD .null, ?_, ?_⟩
    · simp [keys, *]
    · rw [← Except.ok.inj hbox]
      simp [ofValues, texts, isSet, *]
  · rintro ⟨value, hvalue, rfl⟩
    have hdetail : ∀ key ∈ keys, detail members key = .ok (value key) :=
      fun key hkey => detail_eq_ok_iff.mpr (hvalue key hkey)
    simp only [keys, List.forall_mem_cons] at hdetail
    obtain ⟨h₁, h₂, h₃, h₄, h₅, h₆, h₇, h₈, h₉, h₁₀, h₁₁, h₁₂, h₁₃, h₁₄, -⟩ := hdetail
    simp only [ofMembers, textDetail, listDetail, flagDetail, h₁, h₂, h₃, h₄, h₅, h₆, h₇, h₈, h₉, h₁₀,
      h₁₁, h₁₂, h₁₃, h₁₄]
    rfl

theorem failsUnexpected_ofMembers (members : Members Datum) :
    FailsUnexpected (ofMembers members) := by
  have htext : ∀ key, FailsUnexpected (textDetail members key) :=
    fun key => (failsUnexpected_detail members key).map _
  have hlist : ∀ key, FailsUnexpected (listDetail members key) :=
    fun key => (failsUnexpected_detail members key).map _
  have hflag : ∀ key, FailsUnexpected (flagDetail members key) :=
    fun key => (failsUnexpected_detail members key).map _
  unfold ofMembers
  refine (htext _).bind fun _ => (htext _).bind fun _ => (htext _).bind fun _ =>
    (htext _).bind fun _ => (htext _).bind fun _ => (hlist _).bind fun _ => (hlist _).bind fun _ => ?_
  iterate 7 refine (hflag _).bind fun _ => ?_
  exact .ok _

/-- Whether a reply is successful and its data have all the settings of a filebox. -/
def Carries (r : Response) (box : Filebox) : Prop :=
  ∃ members, r.CarriesMembers members ∧ Describes members box

/-- The settings of a filebox are those that the reply carries. -/
theorem reads_ofMembers : Response.Reads (fun r => r.object >>= ofMembers) Carries :=
  (Response.reads_object.bind failsUnexpected_ofMembers).congr fun _ _ =>
    exists_congr fun _ => and_congr_right fun _ => ofMembers_eq_ok_iff

end Filebox

end RemoteTable
