import RemoteTable.Json.Reader
import RemoteTable.Proofs.Members

/-!
# The names of documents

Every object of a document has its members in the order of their names (`Json.sortedKeys_of_ofText?`):
the reader collects them as they are written and puts each of them in its place, and it does so at
every depth.
-/

namespace RemoteTable

namespace Json

/-! ## Parts of ordered values -/

/-- A sequence is in order if every element is. -/
theorem sortedItems_iff {items : List Json} : SortedItems items ↔ ∀ item ∈ items, item.SortedKeys := by
  induction items with
  | nil => simp [SortedItems]
  | cons item items ih => rw [SortedItems, ih, List.forall_mem_cons]

/-- The values of members are in order if each of them is. -/
theorem sortedValues_iff {members : List (String × Json)} :
    SortedValues members ↔ ∀ m ∈ members, m.2.SortedKeys := by
  induction members with
  | nil => simp [SortedValues]
  | cons m members ih => rw [SortedValues, ih, List.forall_mem_cons]

/-- An object is ordered if the values of its members are. -/
theorem sortedKeys_ofMembers {pairs : List (String × Json)} (h : ∀ pair ∈ pairs, pair.2.SortedKeys) :
    (ofMembers pairs).SortedKeys :=
  ⟨Members.sorted_ofList pairs, sortedValues_iff.mpr fun m hm => h m (Members.mem_of_mem_ofList hm)⟩

/-! ## The reader -/

mutual

/-- What is read at the front of a text is ordered; the fuel goes down with every part. -/
theorem sortedKeys_of_readValue : ∀ (fuel depth : ℕ) {text rest : List Char} {v : Json},
    readValue fuel depth text = some (v, rest) → v.SortedKeys
  | 0, _, _, _, _, h => by cases h
  | fuel + 1, depth, text, rest, v, h => by
    unfold readValue at h
    split at h
    case h_1 => cases h
    case h_2 | h_5 | h_6 | h_7 | h_8 =>
      obtain ⟨_, -, heq⟩ := Option.map_eq_some_iff.mp h
      cases heq
      trivial
    case h_3 =>
      -- a sequence: no level is left, or it is empty, or its elements are read
      split at h
      · cases h
      · split at h
        · cases h
          trivial
        · obtain ⟨⟨items, rest⟩, hitems, heq⟩ := Option.map_eq_some_iff.mp h
          cases heq
          exact sortedItems_iff.mpr (sortedKeys_of_readItems fuel _ (by simp) hitems)
    case h_4 =>
      -- an object, likewise
      split at h
      · cases h
      · split at h
        · cases h
          exact ⟨List.Pairwise.nil, trivial⟩
        · obtain ⟨⟨pairs, rest⟩, hpairs, heq⟩ := Option.map_eq_some_iff.mp h
          cases heq
          exact sortedKeys_ofMembers (sortedKeys_of_readMembers fuel _ (by simp) hpairs)

/-- So are the elements of a sequence, if those that were read before are. -/
theorem sortedKeys_of_readItems : ∀ (fuel depth : ℕ) {read : List Json} {text rest : List Char}
    {items : List Json}, (∀ item ∈ read, item.SortedKeys) →
      readItems fuel depth read text = some (items, rest) → ∀ item ∈ items, item.SortedKeys
  | 0, _, _, _, _, _, _, h => by cases h
  | fuel + 1, depth, read, text, rest, items, hread, h => by
    unfold readItems at h
    split at h
    case h_1 => cases h
    case h_2 item _ hitem =>
      have hnext : ∀ other ∈ item :: read, other.SortedKeys :=
        List.forall_mem_cons.mpr ⟨sortedKeys_of_readValue fuel depth hitem, hread⟩
      split at h
      · exact sortedKeys_of_readItems fuel depth hnext h
      · cases h
        exact fun other hother => hnext other (List.mem_reverse.mp hother)
      · cases h

/-- So are the values of the members of an object, although their names are still as they are
written. -/
theorem sortedKeys_of_readMembers : ∀ (fuel depth : ℕ) {read : List (String × Json)}
    {text rest : List Char} {pairs : List (String × Json)}, (∀ pair ∈ read, pair.2.SortedKeys) →
      readMembers fuel depth read text = some (pairs, rest) → ∀ pair ∈ pairs, pair.2.SortedKeys
  | 0, _, _, _, _, _, _, h => by cases h
  | fuel + 1, depth, read, text, rest, pairs, hread, h => by
    unfold readMembers at h
    split at h
    case h_2 => cases h
    split at h
    case h_1 => cases h
    case h_2 name _ _ =>
      split at h
      case h_2 => cases h
      split at h
      case h_1 => cases h
      case h_2 value _ hvalue =>
        have hnext : ∀ other ∈ (name, value) :: read, other.2.SortedKeys :=
          List.forall_mem_cons.mpr ⟨sortedKeys_of_readValue fuel depth hvalue, hread⟩
        split at h
        · exact sortedKeys_of_readMembers fuel depth hnext h
        · cases h
          exact fun other hother => hnext other (List.mem_reverse.mp hother)
        · cases h

end

/-- Every object of a document has its members in the order of their names. -/
theorem sortedKeys_of_ofText? {text : String} {v : Json} (h : ofText? text = some v) :
    v.SortedKeys := by
  unfold ofText? at h
  dsimp only at h
  split at h
  case h_1 value rest hread =>
    split at h
    · cases h
      exact sortedKeys_of_readValue _ _ hread
    · cases h
  case h_2 => cases h

end Json

end RemoteTable
