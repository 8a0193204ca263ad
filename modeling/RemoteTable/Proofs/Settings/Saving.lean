import Mathlib.Algebra.Group.Nat.Defs
import RemoteTable.Proofs.Settings.Environment
import RemoteTable.Proofs.Settings.Names
import RemoteTable.Proofs.Toml.Lines

/-!
# Saved settings are loaded again

Settings are saved as a document with a line for each setting that is set
(`ClientSettings.toToml_eq`). Loading the document gives the settings back as they were
(`ClientSettings.saved_reloads`): a text stays a text whatever it looks like, and a setting that is
not set does not occur and has no value then. Only counts of seconds that a document cannot hold are
not saved.
-/

namespace RemoteTable

/-! ## Lines of settings -/

namespace Setting

/-- The name of a setting stands in a document without quotes. -/
theorem isKeyChar_of_mem_name (setting : Setting) :
    ∀ c ∈ setting.name.toList, Toml.isKeyChar c = true := by
  have hall : setting.name.toList.all Toml.isKeyChar = true := by cases setting <;> decide
  exact List.all_eq_true.mp hall

theorem name_ne_nil (setting : Setting) : setting.name.toList ≠ [] := by
  cases setting <;> decide

/-- No two settings have one name. -/
theorem nodup_names : (all.map name).Nodup := by decide

/-- A setting with a text. -/
def textEntry (setting : Setting) (text : String) : Toml.Entry :=
  .ofText setting.name setting.name_ne_nil setting.isKeyChar_of_mem_name text

/-- A setting with a count. -/
def countEntry (setting : Setting) (n : ℕ) (h : n < signedEnd) : Toml.Entry :=
  .ofNat setting.name setting.name_ne_nil setting.isKeyChar_of_mem_name n h

/-- A setting that may be unset. -/
def optionalEntry (setting : Setting) (text : Option String) : List Toml.Entry :=
  (text.map setting.textEntry).toList

/-- A setting that may be absent has one entry at most. -/
theorem sublist_optionalEntry (setting : Setting) (text : Option String) :
    ((setting.optionalEntry text).map Toml.Entry.name).Sublist [setting.name] := by
  cases text with
  | none => exact List.nil_sublist _
  | some text => exact List.Sublist.refl _

end Setting

namespace SettingLayer

/-- Values that come later are on top. -/
theorem ofNamedValues_append (front back : List (List Char × Option RawSetting)) :
    ofNamedValues (front ++ back) = (ofNamedValues back).onTopOf (ofNamedValues front) := by
  induction back using List.reverseRecOn with
  | nil =>
    rw [List.append_nil]
    rfl
  | append_singleton back pair ih =>
    rw [← List.append_assoc, ofNamedValues_concat, ofNamedValues_concat, ih]
    funext setting
    exact (Option.or_assoc ..).symm

end SettingLayer

/-! ## Written configurations -/

namespace ClientSettings

open SettingLayer

/-- The settings that are set, as entries of a document. -/
def entries (c : ClientSettings) (h : c.timeoutSecs < signedEnd) : List Toml.Entry :=
  [Setting.serverUrl.textEntry c.serverUrl] ++ Setting.token.optionalEntry c.token ++
    Setting.database.optionalEntry c.database ++ Setting.account.optionalEntry c.account ++
    [Setting.timeoutSecs.countEntry c.timeoutSecs h]

variable {c : ClientSettings}

/-- The line of an optional setting is that of its entry, if there is one. -/
theorem optionalLine_eq (setting : Setting) (text : Option String) :
    optionalLine setting.name text = Toml.document (setting.optionalEntry text) := by
  cases text with
  | none => rfl
  | some text => exact (List.append_nil _).symm

/-- The saved document has the lines of these entries. -/
theorem toToml_eq (h : c.timeoutSecs < signedEnd) :
    c.toToml = .ok (String.ofList (Toml.document (c.entries h))) := by
  have htoken : optionalLine "token" c.token = _ := optionalLine_eq .token c.token
  have hdatabase : optionalLine "database" c.database = _ := optionalLine_eq .database c.database
  have haccount : optionalLine "account_id" c.account = _ := optionalLine_eq .account c.account
  rw [toToml, if_neg (Nat.not_le_of_lt h), htoken, hdatabase, haccount]
  have hserverUrl : textLine "server_url" c.serverUrl =
      (Setting.serverUrl.textEntry c.serverUrl).line := rfl
  have htimeoutSecs : "timeout_secs".toList ++ [' ', '=', ' '] ++ Nat.toDigits 10 c.timeoutSecs ++
      ['\n'] = (Setting.timeoutSecs.countEntry c.timeoutSecs h).line := rfl
  rw [hserverUrl, htimeoutSecs]
  simp [entries, Toml.document]

/-- No setting occurs twice in a saved document. -/
theorem nodup_entries (h : c.timeoutSecs < signedEnd) :
    ((c.entries h).map Toml.Entry.name).Nodup := by
  refine Setting.nodup_names.sublist ?_
  rw [entries, List.map_append, List.map_append, List.map_append, List.map_append]
  have htoken := Setting.token.sublist_optionalEntry c.token
  have hdatabase := Setting.database.sublist_optionalEntry c.database
  have haccount := Setting.account.sublist_optionalEntry c.account
  exact ((((List.Sublist.refl [_]).append htoken).append hdatabase).append haccount).append
    (List.Sublist.refl [_])

/-- What a saved document gives for a setting. -/
def savedLayer (c : ClientSettings) : SettingLayer
  | .serverUrl => some (.text c.serverUrl)
  | .token => c.token.map .text
  | .database => c.database.map .text
  | .account => c.account.map .text
  | .timeoutSecs => some (.integer c.timeoutSecs)

/-! ## Read entries -/

/-- What the lines of a document give for a setting. -/
def ofEntries (entries : List Toml.Entry) : SettingLayer :=
  ofDocument (entries.map fun e => (e.name, e.value))

/-- Entries further down lie on top. -/
theorem ofEntries_append (front back : List Toml.Entry) :
    ofEntries (front ++ back) = (ofEntries back).onTopOf (ofEntries front) := by
  rw [ofEntries, ofDocument, List.map_append, List.map_append, ofNamedValues_append]
  rfl

theorem ofEntries_name (setting other : Setting) {e : Toml.Entry} (h : e.name = setting.name) :
    ofEntries [e] other = if other = setting then RawSetting.ofToml e.value else none := by
  show (ofNamed e.name.toList (RawSetting.ofToml e.value) other).or none = _
  rw [Option.or_none, h]
  cases setting <;> cases other <;> rfl

theorem ofEntries_textEntry (setting other : Setting) (text : String) :
    ofEntries [setting.textEntry text] other = if other = setting then some (.text text) else none :=
  ofEntries_name setting other rfl

theorem ofEntries_countEntry (setting other : Setting) (n : ℕ) (h : n < signedEnd) :
    ofEntries [setting.countEntry n h] other = if other = setting then some (.integer n) else none :=
  ofEntries_name setting other rfl

theorem ofEntries_optionalEntry (setting other : Setting) (text : Option String) :
    ofEntries (setting.optionalEntry text) other =
      if other = setting then text.map .text else none := by
  cases text with
  | none => exact (ite_self _).symm
  | some text => exact ofEntries_textEntry setting other text

/-- The entries of a configuration set what was saved. -/
theorem ofEntries_entries (h : c.timeoutSecs < signedEnd) :
    ofEntries (c.entries h) = c.savedLayer := by
  funext setting
  rw [entries, ofEntries_append, ofEntries_append, ofEntries_append, ofEntries_append]
  simp only [onTopOf, ofEntries_optionalEntry, ofEntries_textEntry, ofEntries_countEntry]
  cases setting <;> simp [savedLayer]

/-- Without variables the environment is silent. -/
theorem ofEnvironment_of_no_variable {environment : List (String × String)}
    (h : environment.filter isVariable = []) : ofEnvironment environment = fun _ => none := by
  rw [ofEnvironment_eq, h]
  rfl

/-- The settings of a saved document are those that were saved. -/
theorem toSettings_savedLayer (c : ClientSettings) :
    toSettings (onTopOf (fun _ => none) (c.savedLayer.onTopOf defaults)) = .ok c := by
  rw [toSettings_eq_ok_iff]
  have hoptional : ∀ text : Option String,
      ((((text.map RawSetting.text).or (some .unset)).getD .unset).optional?) = some text := by
    intro text
    cases text <;> rfl
  exact ⟨rfl, hoptional c.token, hoptional c.database, hoptional c.account, rfl⟩

/-! ## Saving and loading -/

/-- Saved settings are loaded as they were:

* settings whose count of seconds is beyond the whole numbers of a document are not saved;
* all others are saved as a document, and loading it gives exactly these settings, whatever their
  texts are and whichever of them are set, unless a variable of this library is in the environment. -/
theorem saved_reloads (c : ClientSettings) :
    (2 ^ 63 ≤ c.timeoutSecs → c.toToml = .error .configuration) ∧
    (c.timeoutSecs ≤ 2 ^ 63 - 1 → ∃ text, c.toToml = .ok text ∧
      ∀ environment : List (String × String), environment.filter isVariable = [] →
        load (.text text) environment = .ok c) := by
  constructor
  · intro h
    exact if_pos h
  · intro h
    have hend : c.timeoutSecs < signedEnd := Nat.lt_of_le_of_lt h (by decide)
    refine ⟨_, toToml_eq hend, fun environment hno => ?_⟩
    have hfile : fileLayer (.text (String.ofList (Toml.document (c.entries hend)))) =
        .ok c.savedLayer := by
      rw [fileLayer, Toml.ofText?_document (nodup_entries hend)]
      dsimp only
      exact congrArg Except.ok (ofEntries_entries hend)
    rw [load_eq hfile, ofEnvironment_of_no_variable hno]
    exact c.toSettings_savedLayer

/-- Settings with quotes, a backslash and a control character in the address, a token that looks like a
number, an empty database, and no account. -/
def lookalikes : ClientSettings :=
  ⟨"it's '''\"quoted\"'''\n\\ \x01", some "0123", some "", none, 2 ^ 63 - 1⟩

/-- They are loaded as they were, and are not saved with one second more. -/
theorem lookalikes_saved_reloads :
    (∃ text, lookalikes.toToml = .ok text ∧
      load (.text text) [("PATH", "/bin"), ("TABLE", "1")] = .ok lookalikes) ∧
      { lookalikes with timeoutSecs := 2 ^ 63 }.toToml = .error .configuration := by
  obtain ⟨text, htext, hload⟩ := lookalikes.saved_reloads.2 (by decide)
  have hbeyond := { lookalikes with timeoutSecs := 2 ^ 63 }.saved_reloads.1 (by decide)
  exact ⟨⟨text, htext, hload _ (by decide)⟩, hbeyond⟩

end ClientSettings

end RemoteTable
