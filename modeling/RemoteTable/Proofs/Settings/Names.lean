import Mathlib.Data.List.Induction
import Mathlib.Data.List.Pairwise
import RemoteTable.Proofs.Settings.Environment

/-!
# Names of settings in a layer

A layer of settings is made of named values: the members of a document, or the variables of an
environment behind their common beginning. A name may be the name of a setting, in any letter case, or
lead into a setting as a path, or neither. With names that are distinct up to letter case a setting has
the value under its name, unless some path has led into it (`SettingLayer.ofPairs_eq_some_iff`). Names
that do not lead to a setting can be left out (`SettingLayer.ofPairs_filter_leads`), and so can all names
that are not those of settings if the setting has a value of some kind
(`SettingLayer.ofPairs_filter_isNamed`).
-/

namespace RemoteTable

/-- The settings, one after the other. -/
def Setting.all : List Setting :=
  [serverUrl, token, database, account, timeoutSecs]

/-- The list of settings is complete. -/
theorem Setting.mem_all (setting : Setting) : setting ∈ all := by
  cases setting <;> decide

open RawSetting (lowerName lowerLetter)

/-! ## Paths -/

namespace SettingPath

/-- What follows the first name of a path begins with a point or a bracket. -/
theorem of_isTail_cons {fuel : ℕ} {c : Char} {cs : List Char} (h : isTail fuel (c :: cs) = true) :
    c = '.' ∨ c = '[' := by
  cases fuel with
  | zero => cases h
  | succ fuel =>
    unfold isTail at h
    split at h
    case h_3 heq => exact .inl (List.cons.inj heq).1
    case h_4 heq => exact .inr (List.cons.inj heq).1
    all_goals simp_all

/-- A name is meant as it is, or the rest of it leads into what stands in front. -/
theorem split_cases (name : List Char) :
    split name = (name, false) ∨
      ∃ head c tail, (c = '.' ∨ c = '[') ∧ name = head ++ c :: tail ∧ split name = (head, true) := by
  have hname := (name.takeWhile_append_dropWhile (p := isPartChar)).symm
  unfold split
  dsimp only
  split
  case isFalse => exact .inl rfl
  case isTrue h =>
    cases htail : name.dropWhile isPartChar with
    | nil =>
      rw [htail, List.append_nil] at hname
      exact .inl (by rw [← hname]; rfl)
    | cons c tail =>
      rw [htail] at h hname
      exact .inr ⟨_, c, tail, of_isTail_cons (Bool.and_eq_true_iff.mp h).2, hname, rfl⟩

/-- The name of a setting is not a path into another one. -/
theorem split_of_isName {name : List Char} {setting : Setting} (h : lowerName name = setting.name) :
    split name = (name, false) := by
  rcases split_cases name with hsplit | ⟨head, c, tail, hc, rfl, -⟩
  · exact hsplit
  · -- the name of a setting has neither a point nor a bracket
    have hnot : lowerLetter c ∉ setting.name.toList := by
      rcases hc with rfl | rfl <;> cases setting <;> decide
    refine absurd ?_ hnot
    rw [← h, lowerName, String.toList_ofList]
    exact List.mem_map_of_mem (List.mem_append_right head List.mem_cons_self)

end SettingPath

namespace SettingLayer

/-! ## Named values -/

section

variable {name : List Char} {raw? : Option RawSetting} {raw : RawSetting} {setting : Setting}
  {pairs : List (List Char × Option RawSetting)}

/-- A setting's own name gives it the value. -/
theorem ofNamed_of_isName (h : lowerName name = setting.name) :
    ofNamed name raw? setting = raw? := by
  simp [ofNamed, SettingPath.split_of_isName h, h]

/-- A name that gives a setting something is its own name, or a path that makes it a structure. -/
theorem ofNamed_cases (h : ofNamed name raw? setting = some raw) :
    lowerName name = setting.name ∧ raw? = some raw ∨
      (SettingPath.split name).2 = true ∧ raw = .structured := by
  unfold ofNamed at h
  rcases SettingPath.split_cases name with hsplit | ⟨head, -, -, -, -, hsplit⟩
  · rw [hsplit] at h
    dsimp only at h
    split at h
    case isTrue hname => exact .inl ⟨hname, h⟩
    case isFalse => cases h
  · rw [hsplit] at h ⊢
    dsimp only at h
    split at h
    case isTrue => exact .inr ⟨rfl, (Option.some.inj h).symm⟩
    case isFalse => cases h

/-- The last pair is on top. -/
theorem ofNamedValues_concat (pair : List Char × Option RawSetting) :
    ofNamedValues (pairs ++ [pair]) = (ofNamed pair.1 pair.2).onTopOf (ofNamedValues pairs) := by
  rw [ofNamedValues, List.foldl_append]
  rfl

/-- A setting has a value under its name, or a path has led into it. -/
theorem ofNamedValues_cases (h : ofNamedValues pairs setting = some raw) :
    (∃ name, (name, some raw) ∈ pairs ∧ lowerName name = setting.name) ∨
      (∃ pair ∈ pairs, (SettingPath.split pair.1).2 = true) ∧ raw = .structured := by
  -- from the end, where the pair is that decides
  induction pairs using List.reverseRecOn with
  | nil => cases h
  | append_singleton pairs pair ih =>
    rw [ofNamedValues_concat, onTopOf, Option.or_eq_some_iff] at h
    rcases h with h | ⟨-, h⟩
    · have hmem : pair ∈ pairs ++ [pair] := List.mem_append_right pairs (List.mem_singleton_self pair)
      rcases ofNamed_cases h with ⟨hname, hraw⟩ | ⟨hinside, hraw⟩
      · exact .inl ⟨pair.1, hraw ▸ hmem, hname⟩
      · exact .inr ⟨⟨pair, hmem, hinside⟩, hraw⟩
    · rcases ih h with ⟨name, hmem, hname⟩ | ⟨⟨inside, hmem, hinside⟩, hraw⟩
      · exact .inl ⟨name, List.mem_append_left _ hmem, hname⟩
      · exact .inr ⟨⟨inside, List.mem_append_left _ hmem, hinside⟩, hraw⟩

/-- A setting with a value under its name has a value. -/
theorem exists_ofNamedValues (hmem : (name, some raw) ∈ pairs) (hname : lowerName name = setting.name) :
    ∃ found, ofNamedValues pairs setting = some found := by
  rw [← Option.isSome_iff_exists]
  induction pairs using List.reverseRecOn with
  | nil => cases hmem
  | append_singleton pairs pair ih =>
    rw [ofNamedValues_concat, onTopOf, Option.isSome_or, Bool.or_eq_true]
    rcases List.mem_append.mp hmem with hmem | hmem
    · exact .inr (ih hmem)
    · rw [← List.mem_singleton.mp hmem, ofNamed_of_isName hname]
      exact .inl rfl

end

/-! ## Layers of pairs -/

section

variable {α : Type}

/-- What stands behind a common beginning of names, in any letter case. -/
def behind? (beginning name : String) : Option (List Char) :=
  if lowerName (name.toList.take beginning.length) = beginning then
    some (name.toList.drop beginning.length)
  else none

/-- Whether the name of a pair has a common beginning. -/
def begins (beginning : String) (pair : String × α) : Bool :=
  (behind? beginning pair.1).isSome

/-- The values of pairs, named by what stands behind a common beginning. -/
def namedValues (beginning : String) (give : α → Option RawSetting) (pairs : List (String × α)) :
    List (List Char × Option RawSetting) :=
  pairs.filterMap fun pair => (behind? beginning pair.1).map fun rest => (rest, give pair.2)

/-- The layer of pairs whose names have a common beginning. -/
def ofPairs (beginning : String) (give : α → Option RawSetting) (pairs : List (String × α)) :
    SettingLayer :=
  ofNamedValues (namedValues beginning give pairs)

/-- Whether the names of pairs are distinct up to letter case. -/
def DistinctNames (pairs : List (String × α)) : Prop :=
  pairs.Pairwise fun a b => lowerName a.1.toList ≠ lowerName b.1.toList

instance (pairs : List (String × α)) : Decidable (DistinctNames pairs) :=
  inferInstanceAs (Decidable (List.Pairwise _ pairs))

/-- Whether one of the pairs has a value under the name of a setting behind a common beginning, in any
letter case. -/
def Holds (beginning : String) (pairs : List (String × α)) (setting : Setting) (a : α) : Prop :=
  ∃ name, (name, a) ∈ pairs ∧ lowerName name.toList = beginning ++ setting.name

/-- Whether a pair has the name of a setting behind a common beginning, in any letter case. -/
def isNamed (beginning : String) (pair : String × α) : Bool :=
  Setting.all.any fun setting => lowerName pair.1.toList == beginning ++ setting.name

/-- Whether what stands behind a common beginning is the name of a setting or a path into one. -/
def leads (beginning : String) (pair : String × α) : Bool :=
  (behind? beginning pair.1).any fun rest =>
    Setting.all.any fun setting => lowerName (SettingPath.split rest).1 == setting.name

variable {beginning name : String} {give : α → Option RawSetting} {pairs : List (String × α)}
  {setting : Setting} {raw : RawSetting} {a : α}

/-- A name begins with some letters, be they small or not, if they can be taken off. -/
theorem lowerName_eq_append_iff {rest : String} :
    lowerName name.toList = beginning ++ rest ↔
      ∃ behind, behind? beginning name = some behind ∧ lowerName behind = rest := by
  have hiff : (lowerName (name.toList.take beginning.length) = beginning ∧
      lowerName (name.toList.drop beginning.length) = rest) ↔
        lowerName name.toList = beginning ++ rest := by
    simp only [lowerName, ← String.toList_inj, String.toList_ofList, String.toList_append,
      List.map_take, List.map_drop]
    constructor
    · rintro ⟨hfront, hbehind⟩
      rw [← hfront, ← hbehind, List.take_append_drop]
    · intro h
      rw [h, ← String.length_toList]
      exact ⟨List.take_left, List.drop_left⟩
  rw [← hiff, behind?]
  simp

/-- The pairs that count are those whose name is a setting's, behind the beginning. -/
theorem isNamed_iff {pair : String × α} :
    isNamed beginning pair = true ↔
      ∃ setting : Setting, lowerName pair.1.toList = beginning ++ setting.name := by
  simp [isNamed, Setting.mem_all]

/-- The named values are what the pairs give, under the names behind the beginning. -/
theorem mem_namedValues_iff {rest : List Char} {raw? : Option RawSetting} :
    (rest, raw?) ∈ namedValues beginning give pairs ↔
      ∃ name a, (name, a) ∈ pairs ∧ behind? beginning name = some rest ∧ give a = raw? := by
  simp [namedValues]

/-- A setting that has a value under its name is held. -/
theorem exists_mem_namedValues_iff :
    (∃ name, (name, some raw) ∈ namedValues beginning give pairs ∧ lowerName name = setting.name) ↔
      ∃ a, Holds beginning pairs setting a ∧ give a = some raw := by
  simp only [mem_namedValues_iff, Holds, lowerName_eq_append_iff]
  constructor
  · rintro ⟨rest, ⟨name, a, hmem, hbehind, hgive⟩, hname⟩
    exact ⟨a, ⟨name, hmem, rest, hbehind, hname⟩, hgive⟩
  · rintro ⟨a, ⟨name, hmem, rest, hbehind, hname⟩, hgive⟩
    exact ⟨rest, ⟨name, a, hmem, hbehind, hgive⟩, hname⟩

/-- With distinct names a setting has one value under its name. -/
theorem Holds.unique {b : α} (hdistinct : DistinctNames (pairs.filter (begins beginning)))
    (ha : Holds beginning pairs setting a) (hb : Holds beginning pairs setting b) : a = b := by
  have hbegins : ∀ {name : String} {a : α}, (name, a) ∈ pairs →
      lowerName name.toList = beginning ++ setting.name →
        (name, a) ∈ pairs.filter (begins beginning) := by
    intro name a hmem hname
    obtain ⟨rest, hbehind, -⟩ := lowerName_eq_append_iff.mp hname
    exact List.mem_filter.mpr ⟨hmem, Option.isSome_iff_exists.mpr ⟨rest, hbehind⟩⟩
  obtain ⟨name, hmem, hname⟩ := ha
  obtain ⟨name', hmem', hname'⟩ := hb
  by_contra hne
  have hpairs : (name, a) ≠ (name', b) := fun heq => hne (Prod.mk.inj heq).2
  have hsymm : Std.Symm fun a b : String × α => lowerName a.1.toList ≠ lowerName b.1.toList :=
    ⟨fun _ _ h => h.symm⟩
  exact hdistinct.forall (hbegins hmem hname) (hbegins hmem' hname') hpairs (hname.trans hname'.symm)

/-- With distinct names a setting has the value under its name, if no path has led into it. -/
theorem ofPairs_eq_some_iff (hdistinct : DistinctNames (pairs.filter (begins beginning)))
    (hinside : ofPairs beginning give pairs setting = some .structured →
      ∀ pair ∈ namedValues beginning give pairs, (SettingPath.split pair.1).2 = false) :
    ofPairs beginning give pairs setting = some raw ↔
      ∃ a, Holds beginning pairs setting a ∧ give a = some raw := by
  have hfound : ∀ {raw}, ofPairs beginning give pairs setting = some raw →
      ∃ a, Holds beginning pairs setting a ∧ give a = some raw := by
    intro raw h
    rcases ofNamedValues_cases h with hname | ⟨⟨pair, hmem, htrue⟩, rfl⟩
    · exact exists_mem_namedValues_iff.mp hname
    · rw [hinside h pair hmem] at htrue
      cases htrue
  constructor
  · exact hfound
  · rintro ⟨a, hholds, hgive⟩
    obtain ⟨rest, hmem, hname⟩ := exists_mem_namedValues_iff.mpr ⟨a, hholds, hgive⟩
    -- there is a value, and it can only be that of the one pair with the name
    obtain ⟨found, h⟩ := exists_ofNamedValues hmem hname
    obtain ⟨b, hholds', hgive'⟩ := hfound h
    rw [← hholds.unique hdistinct hholds', hgive] at hgive'
    rw [hgive']
    exact h

/-! ## Names that can be left out -/

/-- Pairs that name no setting hold no value of one. -/
theorem holds_filter_isNamed_iff :
    Holds beginning (pairs.filter (isNamed beginning)) setting a ↔
      Holds beginning pairs setting a := by
  simp only [Holds, List.mem_filter, isNamed_iff]
  constructor
  · rintro ⟨name, ⟨hmem, -⟩, hname⟩
    exact ⟨name, hmem, hname⟩
  · rintro ⟨name, hmem, hname⟩
    exact ⟨name, ⟨hmem, setting, hname⟩, hname⟩

/-- Names that are not those of settings can be left out, unless a path has led into the setting. -/
theorem ofPairs_filter_isNamed (hdistinct : DistinctNames (pairs.filter (begins beginning)))
    (hnot : ofPairs beginning give pairs setting ≠ some .structured) :
    ofPairs beginning give (pairs.filter (isNamed beginning)) setting =
      ofPairs beginning give pairs setting := by
  have hdistinct' : DistinctNames ((pairs.filter (isNamed beginning)).filter (begins beginning)) :=
    hdistinct.sublist (List.filter_sublist.filter _)
  have hplain : ∀ pair ∈ namedValues beginning give (pairs.filter (isNamed beginning)),
      (SettingPath.split pair.1).2 = false := by
    rintro ⟨rest, raw?⟩ hmem
    obtain ⟨name, a, hmem, hbehind, -⟩ := mem_namedValues_iff.mp hmem
    obtain ⟨setting, hname⟩ := isNamed_iff.mp (List.mem_filter.mp hmem).2
    obtain ⟨rest', hbehind', hrest⟩ := lowerName_eq_append_iff.mp hname
    rw [hbehind, Option.some.injEq] at hbehind'
    subst hbehind'
    rw [SettingPath.split_of_isName hrest]
  refine Option.ext fun raw => ?_
  rw [ofPairs_eq_some_iff hdistinct' fun _ => hplain,
    ofPairs_eq_some_iff hdistinct fun h => absurd h hnot]
  simp only [holds_filter_isNamed_iff]

/-- A further pair lies on top of the pairs in front of it. -/
theorem ofPairs_concat (pair : String × α) :
    ofPairs beginning give (pairs ++ [pair]) =
      (ofPairs beginning give [pair]).onTopOf (ofPairs beginning give pairs) := by
  unfold ofPairs namedValues
  rw [List.filterMap_append, List.filterMap_cons, List.filterMap_nil]
  cases behind? beginning pair.1 with
  | none =>
    rw [Option.map_none, List.append_nil]
    rfl
  | some rest =>
    rw [Option.map_some, ofNamedValues_concat]
    funext setting
    show (ofNamed rest (give pair.2) setting).or _ = ((ofNamed rest (give pair.2) setting).or none).or _
    rw [Option.or_none]

/-- A name that does not lead to a setting gives nothing. -/
theorem ofPairs_of_not_leads {pair : String × α} (h : leads beginning pair = false) :
    ofPairs beginning give [pair] = fun _ => none := by
  unfold ofPairs namedValues
  rw [List.filterMap_cons, List.filterMap_nil]
  cases hbehind : behind? beginning pair.1 with
  | none => rfl
  | some rest =>
    have hno : ∀ setting : Setting, lowerName (SettingPath.split rest).1 ≠ setting.name := by
      simpa [leads, hbehind, Setting.mem_all] using h
    funext setting
    show (ofNamed rest (give pair.2) setting).or none = none
    simp [ofNamed, hno setting]

/-- Names that do not lead to a setting can be left out. -/
theorem ofPairs_filter_leads :
    ofPairs beginning give (pairs.filter (leads beginning)) = ofPairs beginning give pairs := by
  induction pairs using List.reverseRecOn with
  | nil => rfl
  | append_singleton pairs pair ih =>
    rw [List.filter_append, ofPairs_concat pair]
    cases hleads : leads beginning pair with
    | true => rw [List.filter_cons_of_pos hleads, List.filter_nil, ofPairs_concat, ih]
    | false =>
      have hnot : ¬ leads beginning pair = true := Bool.eq_false_iff.mp hleads
      rw [List.filter_cons_of_neg hnot, List.filter_nil, List.append_nil, ih,
        ofPairs_of_not_leads hleads]
      rfl

/-- Pairs whose names lead to no setting make no difference. -/
theorem ofPairs_congr {pairs' : List (String × α)}
    (h : pairs'.filter (leads beginning) = pairs.filter (leads beginning)) :
    ofPairs beginning give pairs' = ofPairs beginning give pairs := by
  rw [← ofPairs_filter_leads, h, ofPairs_filter_leads]

end

end SettingLayer

end RemoteTable
