import RemoteTable.CommandLine.Plan
import RemoteTable.Proofs.Settings.Names

/-!
# Precedence of settings

A setting is what the command line says, or else what the environment says, or else what the document
says, or else the default, each setting on its own (`Setting.Stems`). This holds for every command line,
document and environment that settings are loaded from (`CommandLine.settings_by_precedence`). A key of
the document counts if it has a value, which an empty table is not
(`CommandLine.empty_table_does_not_count`).
-/

namespace RemoteTable

open RawSetting (ofToml)
open SettingLayer

/-! ## Values of settings -/

namespace Setting

/-- What a setting is. -/
def Value : Setting → Type
  | serverUrl => String
  | token | database | account => Option String
  | timeoutSecs => ℕ

/-- The value of a setting that a layer gives, if it is of the right kind. -/
def read : (setting : Setting) → RawSetting → Option setting.Value
  | serverUrl, raw => raw.text?
  | token, raw | database, raw | account, raw => raw.optional?
  | timeoutSecs, raw => raw.count?

/-- No setting is read from a structure. -/
theorem read_structured (setting : Setting) : setting.read .structured = none := by
  cases setting <;> rfl

end Setting

/-- The value of a setting. -/
def ClientSettings.get (s : ClientSettings) : (setting : Setting) → setting.Value
  | .serverUrl => s.serverUrl
  | .token => s.token
  | .database => s.database
  | .account => s.account
  | .timeoutSecs => s.timeoutSecs

/-- What a command line says about a setting. The count of seconds has no option. -/
def CommandLine.given? (c : CommandLine) : (setting : Setting) → Option setting.Value
  | .serverUrl => c.serverUrl
  | .token => c.token.map some
  | .database => c.database.map some
  | .account => c.account.map some
  | .timeoutSecs => none

/-- The keys of a document with their values, if it can be read; no document has no keys. -/
def SettingsFile.members? : SettingsFile → Option (List (String × Toml.Value))
  | .notGiven => some []
  | .missing => none
  | .text content => Toml.ofText? content

/-! ## Where a setting stems from -/

/-- Where a loaded value of a setting stems from: the first of these that is there. A key of the document
may be required to have a value that counts. -/
inductive Setting.Loaded (counts : Toml.Value → Prop) (members : List (String × Toml.Value))
    (environment : List (String × String)) (setting : Setting) : setting.Value → Prop
  /-- The variable of the setting is set, in any letter case. -/
  | environment {v : setting.Value} {t : String} (hvariable : Holds environmentPrefix environment setting t)
    (hread : setting.read (.ofEnvironment t) = some v) : Loaded counts members environment setting v
  /-- The key of the setting is there, in any letter case. -/
  | document {v : setting.Value} {value : Toml.Value}
    (hnone : ∀ t, ¬ Holds environmentPrefix environment setting t) (hkey : Holds "" members setting value)
    (hcounts : counts value) (hread : (ofToml value).bind setting.read = some v) :
    Loaded counts members environment setting v
  /-- There is nothing but the default. -/
  | default (hnone : ∀ t, ¬ Holds environmentPrefix environment setting t)
    (hnokey : ∀ value, Holds "" members setting value → ¬ counts value) :
    Loaded counts members environment setting (ClientSettings.default.get setting)

/-- Where a value of a setting stems from: what the command line says comes before what is loaded. -/
inductive Setting.Stems (counts : Toml.Value → Prop) (c : CommandLine)
    (members : List (String × Toml.Value)) (environment : List (String × String)) (setting : Setting)
    (v : setting.Value) : Prop
  /-- The command line gives it. -/
  | given (hgiven : c.given? setting = some v)
  /-- The command line says nothing. -/
  | loaded (hgiven : c.given? setting = none) (hloaded : setting.Loaded counts members environment v)

/-! ## Layers of a load -/

namespace SettingLayer

/-- The environment is a layer of pairs. -/
theorem ofEnvironment_eq_ofPairs (environment : List (String × String)) :
    ofEnvironment environment =
      ofPairs environmentPrefix (fun t => some (.ofEnvironment t)) environment :=
  rfl

theorem ofDocument_eq_ofPairs (members : List (String × Toml.Value)) :
    ofDocument members = ofPairs "" ofToml members := by
  have hbehind : ∀ name, behind? "" name = some name.toList := fun _ => rfl
  simp only [ofDocument, ofPairs, namedValues, hbehind, Option.map_some, List.filterMap_eq_map']

/-- Settings are made of a value of the right kind for each of them. -/
theorem toSettings_eq_ok_iff_read {layer : SettingLayer} {s : ClientSettings} :
    layer.toSettings = .ok s ↔
      ∀ setting : Setting, setting.read ((layer setting).getD .unset) = some (s.get setting) := by
  rw [toSettings_eq_ok_iff]
  constructor
  · rintro ⟨hserverUrl, htoken, hdatabase, haccount, htimeoutSecs⟩ setting
    cases setting <;> assumption
  · exact fun h => ⟨h .serverUrl, h .token, h .database, h .account, h .timeoutSecs⟩

/-- The layers of a load, the environment on top of the document and of the defaults. -/
def layered (members : List (String × Toml.Value)) (environment : List (String × String)) :
    SettingLayer :=
  (ofEnvironment environment).onTopOf ((ofDocument members).onTopOf defaults)

/-- The defaults are read as they are. -/
theorem read_defaults (setting : Setting) :
    setting.read ((defaults setting).getD .unset) = some (ClientSettings.default.get setting) := by
  cases setting <;> rfl

/-- Nothing is set by an empty table, and by nothing else. -/
theorem ofToml_eq_none_iff {value : Toml.Value} : ofToml value = none ↔ value = .table [] := by
  cases value with
  | table members => cases members <;> simp [ofToml]
  | _ => simp [ofToml]

/-- A layer that gives a setting something of the right kind has not been led into. -/
theorem ne_structured_of_read {layer : SettingLayer} {setting : Setting} {v : setting.Value}
    (h : setting.read ((layer setting).getD .unset) = some v) : layer setting ≠ some .structured := by
  intro hstructured
  rw [hstructured, Option.getD_some, setting.read_structured] at h
  cases h

section

variable {members : List (String × Toml.Value)} {environment : List (String × String)}
  {setting : Setting} {v : setting.Value}

/-- What the environment sets is on top. -/
theorem layered_of_environment {raw : RawSetting} (h : ofEnvironment environment setting = some raw) :
    layered members environment setting = some raw := by
  rw [layered, onTopOf, h, Option.some_or]

theorem layered_of_document (h : ofEnvironment environment setting = none) :
    layered members environment setting = (ofDocument members setting).or (defaults setting) := by
  rw [layered, onTopOf, h, Option.none_or]
  rfl

/-- The environment gives a setting what its variable has. -/
theorem ofEnvironment_eq_some_iff (hvariables : DistinctNames (environment.filter isVariable))
    (hread : setting.read ((layered members environment setting).getD .unset) = some v)
    (raw : RawSetting) : ofEnvironment environment setting = some raw ↔
      ∃ t, Holds environmentPrefix environment setting t ∧ some (.ofEnvironment t) = some raw := by
  rw [ofEnvironment_eq_ofPairs]
  refine ofPairs_eq_some_iff hvariables fun hstructured => ?_
  exact absurd (layered_of_environment hstructured) (ne_structured_of_read hread)

/-- If a setting can be read, the environment is silent about it only if no variable holds it. -/
theorem ofEnvironment_eq_none_iff (hvariables : DistinctNames (environment.filter isVariable))
    (hread : setting.read ((layered members environment setting).getD .unset) = some v) :
    ofEnvironment environment setting = none ↔
      ∀ t, ¬ Holds environmentPrefix environment setting t := by
  simp [Option.eq_none_iff_forall_ne_some, ofEnvironment_eq_some_iff hvariables hread]

/-- Without a variable the document gives a setting what its key has. -/
theorem ofDocument_eq_some_iff (hkeys : DistinctNames members)
    (hread : setting.read ((layered members environment setting).getD .unset) = some v)
    (henvironment : ofEnvironment environment setting = none) (raw : RawSetting) :
    ofDocument members setting = some raw ↔
      ∃ value, Holds "" members setting value ∧ ofToml value = some raw := by
  have hnot := ne_structured_of_read hread
  rw [layered_of_document henvironment, ofDocument_eq_ofPairs] at hnot
  rw [ofDocument_eq_ofPairs]
  refine ofPairs_eq_some_iff (hkeys.filter _) fun hstructured => ?_
  rw [hstructured] at hnot
  exact absurd rfl hnot

/-- If a setting can be read, the document is silent about it only if it holds nothing but empty
tables. -/
theorem ofDocument_eq_none_iff (hkeys : DistinctNames members)
    (hread : setting.read ((layered members environment setting).getD .unset) = some v)
    (henvironment : ofEnvironment environment setting = none) :
    ofDocument members setting = none ↔
      ∀ value, Holds "" members setting value → ¬ value ≠ .table [] := by
  simp only [Option.eq_none_iff_forall_ne_some, ofDocument_eq_some_iff hkeys hread henvironment,
    ne_eq, not_not, ← ofToml_eq_none_iff]
  constructor
  · intro h value hholds raw hraw
    exact h raw ⟨value, hholds, hraw⟩
  · rintro h raw ⟨value, hholds, hraw⟩
    exact h value hholds raw hraw

/-- What the layers give a setting is its variable, or else its key, or else the default. -/
theorem loaded_of_layered (hkeys : DistinctNames members)
    (hvariables : DistinctNames (environment.filter isVariable))
    (hread : setting.read ((layered members environment setting).getD .unset) = some v) :
    setting.Loaded (fun value => value ≠ .table []) members environment v := by
  -- the layers from the top: each is asked only where those above it give nothing
  have hnone := ofEnvironment_eq_none_iff hvariables hread
  cases henvironment : ofEnvironment environment setting with
  | some raw =>
    obtain ⟨t, hholds, hraw⟩ := (ofEnvironment_eq_some_iff hvariables hread raw).mp henvironment
    rw [layered_of_environment henvironment, Option.getD_some, ← Option.some.inj hraw] at hread
    exact .environment hholds hread
  | none =>
    have hnokey := ofDocument_eq_none_iff hkeys hread henvironment
    cases hdocument : ofDocument members setting with
    | some raw =>
      obtain ⟨value, hholds, hraw⟩ :=
        (ofDocument_eq_some_iff hkeys hread henvironment raw).mp hdocument
      rw [layered_of_document henvironment, hdocument, Option.some_or, Option.getD_some] at hread
      refine .document (hnone.mp henvironment) hholds ?_ ?_
      · rintro rfl
        cases hraw
      · rw [hraw]
        exact hread
    | none =>
      rw [layered_of_document henvironment, hdocument, Option.none_or, read_defaults] at hread
      rw [← Option.some.inj hread]
      exact .default (hnone.mp henvironment) (hnokey.mp hdocument)

/-- Only one value is what the layers give. -/
theorem eq_of_loaded {v' : setting.Value} (hkeys : DistinctNames members)
    (hvariables : DistinctNames (environment.filter isVariable))
    (hread : setting.read ((layered members environment setting).getD .unset) = some v)
    (h : setting.Loaded (fun value => value ≠ .table []) members environment v') : v' = v := by
  have hnone := ofEnvironment_eq_none_iff hvariables hread
  cases h with
  | environment hholds hv =>
    have henvironment := (ofEnvironment_eq_some_iff hvariables hread _).mpr ⟨_, hholds, rfl⟩
    rw [layered_of_environment henvironment, Option.getD_some, hv] at hread
    exact Option.some.inj hread
  | document hnovariable hholds hcounts hv =>
    have henvironment := hnone.mpr hnovariable
    obtain ⟨raw, hraw, hv⟩ := Option.bind_eq_some_iff.mp hv
    have hdocument := (ofDocument_eq_some_iff hkeys hread henvironment raw).mpr ⟨_, hholds, hraw⟩
    rw [layered_of_document henvironment, hdocument, Option.some_or, Option.getD_some, hv] at hread
    exact Option.some.inj hread
  | default hnovariable hnokey =>
    have henvironment := hnone.mpr hnovariable
    have hdocument := (ofDocument_eq_none_iff hkeys hread henvironment).mpr hnokey
    rw [layered_of_document henvironment, hdocument, Option.none_or, read_defaults] at hread
    exact Option.some.inj hread

/-- Variables and keys that are not named after settings can be left out. -/
theorem layered_filter_isNamed (hkeys : DistinctNames members)
    (hvariables : DistinctNames (environment.filter isVariable))
    (hread : setting.read ((layered members environment setting).getD .unset) = some v) :
    layered (members.filter (isNamed "")) (environment.filter (isNamed environmentPrefix)) setting =
      layered members environment setting := by
  have hnot := ne_structured_of_read hread
  have hfiltered : ofEnvironment (environment.filter (isNamed environmentPrefix)) setting =
      ofEnvironment environment setting := by
    rw [ofEnvironment_eq_ofPairs, ofEnvironment_eq_ofPairs]
    refine ofPairs_filter_isNamed hvariables fun hstructured => ?_
    exact absurd (layered_of_environment hstructured) hnot
  cases henvironment : ofEnvironment environment setting with
  | some raw =>
    rw [layered_of_environment henvironment, layered_of_environment (hfiltered.trans henvironment)]
  | none =>
    rw [layered_of_document henvironment] at hnot ⊢
    rw [layered_of_document (hfiltered.trans henvironment), ofDocument_eq_ofPairs,
      ofDocument_eq_ofPairs, ofPairs_filter_isNamed (hkeys.filter _)]
    intro hstructured
    rw [ofDocument_eq_ofPairs, hstructured] at hnot
    exact hnot rfl

/-- Variables and keys that do not lead to settings can be left out. -/
theorem layered_congr {members' : List (String × Toml.Value)} {environment' : List (String × String)}
    (hmembers : members'.filter (leads "") = members.filter (leads ""))
    (henvironment : environment'.filter (leads environmentPrefix) =
      environment.filter (leads environmentPrefix)) :
    layered members' environment' = layered members environment := by
  unfold layered
  simp only [ofEnvironment_eq_ofPairs, ofDocument_eq_ofPairs]
  rw [ofPairs_congr hmembers, ofPairs_congr henvironment]

end

end SettingLayer

/-! ## Settings of a run -/

theorem eq_ok_of_toOption {ε α : Type} {x : Except ε α} {a : α} (h : x.toOption = some a) :
    x = .ok a := by
  cases x with
  | error => cases h
  | ok found =>
    cases h
    rfl

namespace CommandLine

variable {c : CommandLine} {file : SettingsFile} {members : List (String × Toml.Value)}
  {environment : List (String × String)} {s : ClientSettings}

/-- What the command line gives counts, and else the settings do. -/
theorem get_override (setting : Setting) :
    (c.override s).get setting = (c.given? setting).getD (s.get setting) := by
  obtain ⟨command, settingsPath, serverUrl, token, database, account, logDirectory, logLevel, noColor⟩ := c
  cases setting with
  | serverUrl | timeoutSecs => rfl
  | token => cases token <;> rfl
  | database => cases database <;> rfl
  | account => cases account <;> rfl

/-- The settings of a run are those that the layers give, with what the command line says on top. -/
theorem settings_eq_ok_iff (hfile : file.members? = some members) :
    c.settings file environment = .ok s ↔ ∃ loaded : ClientSettings, c.override loaded = s ∧
      ∀ setting : Setting,
        setting.read ((layered members environment setting).getD .unset) = some (loaded.get setting) := by
  have hdocument : ClientSettings.fileLayer file = .ok (ofDocument members) := by
    cases file with
    | notGiven =>
      cases hfile
      rfl
    | missing => cases hfile
    | text content =>
      have hcontent : Toml.ofText? content = some members := hfile
      rw [ClientSettings.fileLayer, hcontent]
  have hload : ClientSettings.load file environment = (layered members environment).toSettings :=
    ClientSettings.load_eq hdocument environment
  rw [settings, hload]
  simp only [← toSettings_eq_ok_iff_read]
  cases (layered members environment).toSettings with
  | error e => simp [Except.map]
  | ok loaded => simp [Except.map]

/-- A value of a setting stems from where the value in the settings does. -/
theorem stems_iff (hkeys : DistinctNames members)
    (hvariables : DistinctNames (environment.filter isVariable)) {setting : Setting}
    {v v' : setting.Value}
    (hread : setting.read ((layered members environment setting).getD .unset) = some v) :
    setting.Stems (fun value => value ≠ .table []) c members environment v' ↔
      v' = (c.given? setting).getD v := by
  cases hgiven : c.given? setting with
  | some given =>
    rw [Option.getD_some]
    constructor
    · rintro (h | h) <;> rw [hgiven] at h
      · exact (Option.some.inj h).symm
      · cases h
    · rintro rfl
      exact .given hgiven
  | none =>
    rw [Option.getD_none]
    constructor
    · rintro (h | ⟨-, hloaded⟩)
      · rw [hgiven] at h
        cases h
      · exact eq_of_loaded hkeys hvariables hread hloaded
    · rintro rfl
      exact .loaded hgiven (loaded_of_layered hkeys hvariables hread)

/-- The settings of a run, for every document with keys and every environment with variables that are
distinct up to letter case:

* each setting on its own is what the command line says, or else its variable as converted, or else the
  value of its key, unless this is an empty table, or else the default;
* leaving out all keys and variables that are not named after settings changes nothing;
* keys and variables that neither are named after settings nor lead into them may be any. -/
theorem settings_by_precedence (hfile : file.members? = some members) (hkeys : DistinctNames members)
    (hvariables : DistinctNames (environment.filter isVariable))
    (hsettings : c.settings file environment = .ok s) :
    (∀ (setting : Setting) v,
      setting.Stems (fun value => value ≠ .table []) c members environment v ↔ v = s.get setting) ∧
    (∀ file', file'.members? = some (members.filter (isNamed "")) →
      c.settings file' (environment.filter (isNamed environmentPrefix)) = .ok s) ∧
    ∀ file' members' environment', file'.members? = some members' →
      members'.filter (leads "") = members.filter (leads "") →
      environment'.filter (leads environmentPrefix) = environment.filter (leads environmentPrefix) →
        c.settings file' environment' = .ok s := by
  obtain ⟨loaded, rfl, hread⟩ := (settings_eq_ok_iff hfile).mp hsettings
  refine ⟨fun setting v => ?_, fun file' hfile' => ?_, ?_⟩
  · rw [get_override]
    exact stems_iff hkeys hvariables (hread setting)
  · refine (settings_eq_ok_iff hfile').mpr ⟨loaded, rfl, fun setting => ?_⟩
    rw [layered_filter_isNamed hkeys hvariables (hread setting)]
    exact hread setting
  · intro file' members' environment' hfile' hmembers henvironment
    refine (settings_eq_ok_iff hfile').mpr ⟨loaded, rfl, fun setting => ?_⟩
    rw [layered_congr hmembers henvironment]
    exact hread setting

/-- A document with the address in capital letters, a token that the environment replaces by a numeral,
and a key of no setting; the command line has an empty database. -/
theorem mixed_settings_by_precedence :
    let c : CommandLine := ⟨.version, none, none, none, some "", none, none, none, false⟩
    let file : SettingsFile := .text "SERVER_URL = 'http://f'\ntoken = 'f'\nextra = 1\n"
    let environment := [("tablink_Token", "007"), ("TABLINK_EXTRA", "x"), ("PATH", "/bin")]
    let s : ClientSettings :=
      { ClientSettings.default with serverUrl := "http://f", token := some "7", database := some "" }
    ∃ members, file.members? = some members ∧ c.settings file environment = .ok s ∧
      (∀ v, Setting.token.Stems (fun value => value ≠ .table []) c members environment v ↔
        v = some "7") ∧
      c.settings (.text "SERVER_URL = 'http://f'\ntoken = 'f'\n") [("tablink_Token", "007")] = .ok s := by
  intro c file environment s
  let members : List (String × Toml.Value) :=
    [("SERVER_URL", .string "http://f"), ("token", .string "f"), ("extra", .integer 1)]
  have hfile : file.members? = some members := by decide +kernel
  have hsettings : c.settings file environment = .ok s := by
    have hread : (c.settings file environment).toOption = some s := by decide +kernel
    exact eq_ok_of_toOption hread
  obtain ⟨hstems, hnamed, -⟩ := settings_by_precedence hfile (by decide) (by decide) hsettings
  exact ⟨members, hfile, hsettings, hstems .token, hnamed _ (by decide +kernel)⟩

/-- An empty table under a key does not count: there is a key for the address of the server, but nothing
that the address could be by this key, and the settings are the defaults. -/
theorem empty_table_does_not_count :
    let c : CommandLine := ⟨.version, none, none, none, none, none, none, none, false⟩
    let file : SettingsFile := .text "server_url = \x7b\x7d\n"
    let members : List (String × Toml.Value) := [("server_url", .table [])]
    file.members? = some members ∧ DistinctNames members ∧ c.settings file [] = .ok .default ∧
      ∀ v, ¬ Setting.serverUrl.Stems (fun _ => True) c members [] v := by
  intro c file members
  have hfile : file.members? = some members := by decide +kernel
  refine ⟨hfile, List.pairwise_singleton _ _, ?_, ?_⟩
  · exact eq_ok_of_toOption (by decide +kernel)
  · rintro v (⟨⟨⟩⟩ | ⟨-, hloaded⟩)
    cases hloaded with
    | environment hholds =>
      obtain ⟨name, hmem, -⟩ := hholds
      cases hmem
    | document _ hholds _ hread =>
      obtain ⟨name, hmem, -⟩ := hholds
      cases List.mem_singleton.mp hmem
      cases hread
    | default _ hnokey => exact hnokey _ ⟨"server_url", List.mem_singleton_self _, by decide⟩ trivial

end CommandLine

end RemoteTable
