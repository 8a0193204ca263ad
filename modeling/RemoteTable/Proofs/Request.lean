import RemoteTable.Proofs.Json.Printer
import RemoteTable.Proofs.Members
import RemoteTable.Request

/-!
# The two encodings of a request

A request is sent as a text and compared as an object. The text is that of one list of members, and the
object has the last one of these members for every name (`Request.encodings_agree`). A request whose
parameters have names of their own (`Request.HasOwnNames`) can be recovered from both: from the members
of the text by their places (`Request.ofMembers?`), from the object by their names (`Request.ofJson?`).
-/

namespace RemoteTable

/-- Whether a text is that of an object with these members, one after the other. -/
def Json.IsObjectText (text : String) (pairs : List (String × Json)) : Prop :=
  text = "\x7b" ++ renderMembers pairs ++ "\x7d"

/-- A text is that of one list of members at most. -/
theorem Json.IsObjectText.unique {text : String} {pairs pairs' : List (String × Json)}
    (h : IsObjectText text pairs) (h' : IsObjectText text pairs') : pairs = pairs' := by
  have htexts : "\x7b" ++ renderMembers pairs ++ "\x7d" = "\x7b" ++ renderMembers pairs' ++ "\x7d" :=
    h.symm.trans h'
  have hinside : (renderMembers pairs).toList = (renderMembers pairs').toList := by
    simpa using congrArg String.toList htexts
  exact renderMembers_injective (String.toList_inj.mp hinside)

namespace Request

/-- Whether no parameter is called as the controller or the method is. -/
def HasOwnNames (r : Request) : Prop :=
  r.get? "controller" = none ∧ r.get? "method" = none

/-- The request whose text has these members: the controller and the method stand in front. -/
def ofMembers? : List (String × Json) → Option Request
  | ("controller", .string controller) :: ("method", .string method) :: entries =>
    if h : Members.Sorted entries then some ⟨controller, method, ⟨entries, h⟩⟩ else none
  | _ => none

/-- The members that are parameters by their names. -/
def ownMembers (members : Members Json) : Members Json :=
  members.filter fun member => member.1 ≠ "controller" ∧ member.1 ≠ "method"

/-- The request that an object describes: the controller and the method are found by their names, and
all other members are parameters. -/
def ofJson? : Json → Option Request
  | .object members =>
    match Members.get? members "controller", Members.get? members "method" with
    | some (.string controller), some (.string method) =>
      if h : (ownMembers members).Sorted then some ⟨controller, method, ⟨ownMembers members, h⟩⟩
      else none
    | _, _ => none
  | _ => none

variable {r r' : Request}

/-! ## Members -/

/-- The text of a request is that of an object with its members. -/
theorem isObjectText_text (r : Request) : Json.IsObjectText r.text r.members := rfl

/-- The parameters are those that are found. -/
theorem mem_entries_iff (r : Request) {name : String} {value : Json} :
    (name, value) ∈ r.params.entries ↔ r.get? name = some value :=
  (Members.get?_eq_some_iff_mem r.params.sorted.nodup_names).symm

/-- A request is recovered from its members in their order. -/
theorem ofMembers?_members (r : Request) : ofMembers? r.members = some r :=
  dif_pos r.params.sorted

/-- Different requests have different members, whatever their parameters are called. -/
theorem members_injective : Function.Injective members := by
  intro r r' h
  have hread : some r = some r' := by
    rw [← ofMembers?_members r, ← ofMembers?_members r', h]
  exact Option.some.inj hread

/-- With names of its own a request has no parameter that is named like the controller or the
method. -/
theorem HasOwnNames.not_mem (h : r.HasOwnNames) :
    "controller" ∉ r.params.entries.names ∧ "method" ∉ r.params.entries.names := by
  have hnone : ∀ {name : String}, r.get? name = none → name ∉ r.params.entries.names := by
    intro name hnone hmem
    obtain ⟨value, hvalue⟩ := Members.mem_names_iff.mp hmem
    change r.get? name = some value at hvalue
    rw [hnone] at hvalue
    cases hvalue
  exact ⟨hnone h.1, hnone h.2⟩

/-- Parameters with names of their own repeat no name. -/
theorem HasOwnNames.nodup (h : r.HasOwnNames) : (Members.names r.members).Nodup := by
  obtain ⟨hcontroller, hmethod⟩ := h.not_mem
  have hnames : Members.names r.members = "controller" :: "method" :: r.params.entries.names := rfl
  rw [hnames, List.nodup_cons, List.nodup_cons]
  refine ⟨?_, hmethod, r.params.sorted.nodup_names⟩
  intro hmem
  rcases List.mem_cons.mp hmem with heq | hmem
  · revert heq
    decide
  · exact hcontroller hmem

/-! ## Objects -/

/-- Where no name is repeated, the object has all members. -/
theorem HasOwnNames.get?_eq_some_iff (h : r.HasOwnNames) {name : String} {value : Json} :
    (Members.ofList r.members).get? name = some value ↔ (name, value) ∈ r.members :=
  Members.get?_ofList_eq_some_iff.trans (Members.isLast_iff_mem h.nodup)

/-- Behind the controller and the method there are the parameters. -/
theorem HasOwnNames.ownMembers_eq (h : r.HasOwnNames) :
    ownMembers (Members.ofList r.members) = r.params.entries := by
  obtain ⟨hcontroller, hmethod⟩ := h.not_mem
  have hsorted : (ownMembers (Members.ofList r.members)).Sorted :=
    (Members.sorted_ofList r.members).filter _
  refine Members.eq_of_get?_eq hsorted r.params.sorted fun name => Option.ext fun value => ?_
  rw [Members.get?_eq_some_iff_mem hsorted.nodup_names,
    Members.get?_eq_some_iff_mem r.params.sorted.nodup_names, ownMembers, List.mem_filter,
    ← Members.get?_eq_some_iff_mem (Members.sorted_ofList r.members).nodup_names,
    h.get?_eq_some_iff, decide_eq_true_iff]
  constructor
  · rintro ⟨hmem, hne, hne'⟩
    rcases List.mem_cons.mp hmem with heq | hmem
    · exact absurd (congrArg Prod.fst heq) hne
    rcases List.mem_cons.mp hmem with heq | hmem
    · exact absurd (congrArg Prod.fst heq) hne'
    · exact hmem
  · intro hmem
    have hname : name ∈ r.params.entries.names := List.mem_map.mpr ⟨_, hmem, rfl⟩
    refine ⟨List.mem_cons_of_mem _ (List.mem_cons_of_mem _ hmem), ?_, ?_⟩
    · rintro rfl
      exact hcontroller hname
    · rintro rfl
      exact hmethod hname

/-- From the object the request is recovered by the names of the members. -/
theorem HasOwnNames.ofJson?_toJson (h : r.HasOwnNames) : ofJson? r.toJson = some r := by
  have hcontroller : (Members.ofList r.members).get? "controller" = some (.string r.controller) :=
    h.get?_eq_some_iff.mpr List.mem_cons_self
  have hmethod : (Members.ofList r.members).get? "method" = some (.string r.method) :=
    h.get?_eq_some_iff.mpr (List.mem_cons_of_mem _ List.mem_cons_self)
  show ofJson? (.object (Members.ofList r.members)) = some r
  rw [ofJson?, hcontroller, hmethod]
  simp only [h.ownMembers_eq]
  exact dif_pos r.params.sorted

/-- Requests with names of their own are told apart by their objects. -/
theorem HasOwnNames.eq_of_toJson (h : r.HasOwnNames) (h' : r'.HasOwnNames)
    (hobject : r.toJson = r'.toJson) : r = r' := by
  have hread : some r = some r' := by
    rw [← h.ofJson?_toJson, ← h'.ofJson?_toJson, hobject]
  exact Option.some.inj hread

/-! ## Agreement -/

/-- The two encodings of a request agree, whatever its parameters are called and whatever they hold:

* the text is that of one list of members: the controller, the method, then all parameters, in the
  order of their names;
* the object is the one that a reader makes of these members, with the last one of every name;
* if the parameters have names of their own, no name occurs twice in the text, the request is recovered
  from the members of the text and from the object, and no other such request has the same text or the
  same object. -/
theorem encodings_agree (r : Request) :
    (∀ pairs, Json.IsObjectText r.text pairs ↔
      pairs = ("controller", .string r.controller) :: ("method", .string r.method) ::
        r.params.entries) ∧
    r.params.entries.Sorted ∧
    (∀ name value, (name, value) ∈ r.params.entries ↔ r.get? name = some value) ∧
    (∀ pairs, Json.IsObjectText r.text pairs → r.toJson = Json.ofMembers pairs ∧
      ∃ m : Members Json, r.toJson = .object m ∧ m.Sorted ∧
        ∀ name value, m.get? name = some value ↔ Members.IsLast pairs name value) ∧
    (r.HasOwnNames →
      (∀ pairs, Json.IsObjectText r.text pairs →
        (Members.names pairs).Nodup ∧ ofMembers? pairs = some r) ∧
      ofJson? r.toJson = some r ∧
      ∀ r' : Request, r'.HasOwnNames → r.text = r'.text ∨ r.toJson = r'.toJson → r = r') := by
  have hmembers : ∀ pairs, Json.IsObjectText r.text pairs → pairs = r.members := fun pairs h =>
    h.unique r.isObjectText_text
  refine ⟨?_, r.params.sorted, fun _ _ => r.mem_entries_iff, ?_, fun hown => ⟨?_, ?_, ?_⟩⟩
  · intro pairs
    constructor
    · exact hmembers pairs
    · rintro rfl
      exact r.isObjectText_text
  · intro pairs h
    rw [hmembers pairs h]
    exact ⟨rfl, _, rfl, Members.sorted_ofList _, fun _ _ => Members.get?_ofList_eq_some_iff⟩
  · intro pairs h
    rw [hmembers pairs h]
    exact ⟨hown.nodup, r.ofMembers?_members⟩
  · exact hown.ofJson?_toJson
  · rintro r' hown' (htext | hobject)
    · apply members_injective
      symm
      apply hmembers
      rw [htext]
      exact r'.isObjectText_text
    · exact hown.eq_of_toJson hown' hobject

/-- A whole number and the double with the same value make different requests, and a parameter that is
called as the method is takes its place in the object. -/
theorem named_encodings_agree :
    let count := Request.call "c_orm" "count"
    let whole := count.param "limit" (.number (.integer ⟨1, by decide⟩))
    let double := count.param "limit" (.number (.double ⟨false, 1023 * binade, by decide⟩))
    let shadowed := count.param "method" (.string "drop")
    (∀ pairs, Json.IsObjectText whole.text pairs → ofMembers? pairs = some whole) ∧
    whole.text ≠ double.text ∧ whole.toJson ≠ double.toJson ∧
    ∃ m : Members Json, shadowed.toJson = .object m ∧ m.get? "method" = some (.string "drop") := by
  intro count whole double shadowed
  obtain ⟨-, -, -, -, hown⟩ := encodings_agree whole
  obtain ⟨hread, -, hdistinct⟩ := hown ⟨rfl, rfl⟩
  have hne : whole ≠ double := by decide
  obtain ⟨-, -, -, hobject, -⟩ := encodings_agree shadowed
  obtain ⟨-, m, hm, -, hlast⟩ := hobject _ shadowed.isObjectText_text
  refine ⟨fun pairs h => (hread pairs h).2, fun h => hne (hdistinct double ⟨rfl, rfl⟩ (.inl h)),
    fun h => hne (hdistinct double ⟨rfl, rfl⟩ (.inr h)), m, hm, ?_⟩
  rw [hlast]
  exact ⟨[("controller", .string "c_orm"), ("method", .string "count")], [], rfl, by simp⟩

end Request

end RemoteTable
