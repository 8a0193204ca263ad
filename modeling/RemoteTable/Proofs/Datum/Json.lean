import RemoteTable.Datum

/-!
# Data and the JSON values that carry them

A datum and the value that carries it determine one another: `Datum.toJson_ofJson` and
`Datum.ofJson_toJson`, by recursion over the two trees at once, with one statement for values, one
for the elements of a sequence and one for named members.
-/

namespace RemoteTable

namespace Datum

/-! ## There and back -/

mutual

/-- The datum that a value carries is carried by this value. -/
@[simp] theorem toJson_ofJson : ∀ j : Json, (ofJson j).toJson = j
  | .null => rfl
  | .boolean _ => rfl
  | .number _ => rfl
  | .string _ => rfl
  | .array items => by rw [ofJson, toJson, toItems_ofItems items]
  | .object members => by rw [ofJson, toJson, toMembers_ofMembers members]

@[simp] theorem toItems_ofItems : ∀ items : List Json, toItems (ofItems items) = items
  | [] => rfl
  | item :: items => by rw [ofItems, toItems, toJson_ofJson item, toItems_ofItems items]

@[simp] theorem toMembers_ofMembers :
    ∀ members : List (String × Json), toMembers (ofMembers members) = members
  | [] => rfl
  | (name, value) :: members => by
    rw [ofMembers, toMembers, toJson_ofJson value, toMembers_ofMembers members]

end

mutual

/-- A value that carries a datum carries no other one. -/
@[simp] theorem ofJson_toJson : ∀ d : Datum, ofJson d.toJson = d
  | .null => rfl
  | .boolean _ => rfl
  | .number _ => rfl
  | .string _ => rfl
  | .array items => by rw [toJson, ofJson, ofItems_toItems items]
  | .object members => by rw [toJson, ofJson, ofMembers_toMembers members]

@[simp] theorem ofItems_toItems : ∀ items : List Datum, ofItems (toItems items) = items
  | [] => rfl
  | item :: items => by rw [toItems, ofItems, ofJson_toJson item, ofItems_toItems items]

@[simp] theorem ofMembers_toMembers :
    ∀ members : List (String × Datum), ofMembers (toMembers members) = members
  | [] => rfl
  | (name, value) :: members => by
    rw [toMembers, ofMembers, ofJson_toJson value, ofMembers_toMembers members]

end

/-! ## Sequences -/

/-- The data of a sequence are those of its elements. -/
theorem ofItems_eq_map (items : List Json) : ofItems items = items.map ofJson := by
  induction items with
  | nil => rfl
  | cons item items ih => rw [ofItems, ih, List.map_cons]

/-- The values of a sequence are those of its elements. -/
theorem toItems_eq_map (items : List Datum) : toItems items = items.map toJson := by
  induction items with
  | nil => rfl
  | cons item items ih => rw [toItems, ih, List.map_cons]

/-- The sequence of some texts is carried by the sequence of these texts. -/
theorem toJson_ofTexts (texts : List String) : (ofTexts texts).toJson = .ofTexts texts := by
  rw [ofTexts, toJson, toItems_eq_map, List.map_map]
  rfl

end Datum

end RemoteTable
