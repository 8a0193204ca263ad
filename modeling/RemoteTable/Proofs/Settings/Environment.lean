import RemoteTable.Proofs.Number.Double
import RemoteTable.Settings.Layers

/-!
# Text settings from the environment

A variable of the environment replaces its setting and no other
(`ClientSettings.load_of_variable`), as a document with the kept text would. The text that is kept
is not always the text of the variable: texts are read as truth values and numbers where they can be,
and these are written in their own way. Which texts come through unchanged is said by
`RawSetting.keptText_eq_iff`.
-/

namespace RemoteTable

namespace RawSetting

/-! ## The text that is kept -/

/-- Whether a text is a truth value in any letter case. -/
def IsTruthWord (t : String) : Prop :=
  lowerName t.toList = "true" ∨ lowerName t.toList = "false"

instance (t : String) : Decidable (IsTruthWord t) :=
  inferInstanceAs (Decidable (_ ∨ _))

/-- The text that a setting has when a variable gives it one. -/
def keptText (t : String) : String :=
  if IsTruthWord t then lowerName t.toList
  else match signed64? t.toList, Double.ofText? t.toList with
    | some n, _ => integerText n
    | none, some x => x.text
    | none, none => t

section

variable {t : String}

/-- A truth word is kept in small letters. -/
theorem keptText_of_isTruthWord (h : IsTruthWord t) : keptText t = lowerName t.toList :=
  if_pos h

/-- An integer is kept as it is shown. -/
theorem keptText_of_integer {n : ℤ} (hword : ¬ IsTruthWord t)
    (h : signed64? t.toList = some n) : keptText t = integerText n := by
  rw [keptText, if_neg hword, h]

theorem keptText_of_double {x : Double} (hword : ¬ IsTruthWord t)
    (hinteger : signed64? t.toList = none) (h : Double.ofText? t.toList = some x) :
    keptText t = x.text := by
  rw [keptText, if_neg hword, hinteger, h]

theorem keptText_of_none (hword : ¬ IsTruthWord t) (hinteger : signed64? t.toList = none)
    (hdouble : Double.ofText? t.toList = none) : keptText t = t := by
  rw [keptText, if_neg hword, hinteger, hdouble]

end

/-- A text setting takes the kept text of its variable. -/
theorem text?_ofEnvironment (t : String) : (ofEnvironment t).text? = some (keptText t) := by
  unfold ofEnvironment
  dsimp only
  by_cases htrue : lowerName t.toList = "true"
  · rw [keptText_of_isTruthWord (.inl htrue), if_pos htrue, htrue]
    rfl
  by_cases hfalse : lowerName t.toList = "false"
  · rw [keptText_of_isTruthWord (.inr hfalse), if_neg htrue, if_pos hfalse, hfalse]
    rfl
  have hword : ¬ IsTruthWord t := not_or.mpr ⟨htrue, hfalse⟩
  rw [if_neg htrue, if_neg hfalse]
  cases hinteger : signed64? t.toList with
  | some n =>
    rw [keptText_of_integer hword hinteger]
    rfl
  | none =>
    cases hdouble : Double.ofText? t.toList with
    | some x =>
      rw [keptText_of_double hword hinteger hdouble]
      rfl
    | none =>
      rw [keptText_of_none hword hinteger hdouble]
      rfl

/-- An optional setting takes what a text setting takes. -/
theorem optional?_of_text? {raw : RawSetting} {t : String} (h : raw.text? = some t) :
    raw.optional? = some (some t) := by
  cases raw with
  | unset => cases h
  | structured => cases h
  | _ => exact congrArg (Option.map some) h

/-- Whether a text is written as it is read. A text is read as the first of these that it can be: a
truth value, an integer of 64 bits, another number. -/
structure Unchanged (t : String) : Prop where
  /-- A truth value is in lower case. -/
  word : IsTruthWord t → t = "true" ∨ t = "false"
  /-- An integer has neither a plus sign nor a needless zero. -/
  integer : ¬ IsTruthWord t → ∀ n, signed64? t.toList = some n → IsPlainInteger t.toList
  /-- Another number is in the notation of doubles. -/
  double : ¬ IsTruthWord t → signed64? t.toList = none →
    ∀ x, Double.ofText? t.toList = some x → x.text = t

/-- A text is kept if it is written as it is read, and in no other case. -/
theorem keptText_eq_iff {t : String} : keptText t = t ↔ Unchanged t := by
  constructor
  · intro h
    refine ⟨fun hword => ?_, fun hword n hn => ?_, fun hword hinteger x hx => ?_⟩
    · rw [keptText_of_isTruthWord hword] at h
      rw [← h]
      exact hword
    · rw [keptText_of_integer hword hn, ← String.toList_inj] at h
      exact (integerText_eq_iff_of_signed? (signed?_of_signed64? hn)).mp h
    · rw [keptText_of_double hword hinteger hx] at h
      exact h
  · intro h
    by_cases hword : IsTruthWord t
    · rcases h.word hword with rfl | rfl <;> decide
    -- the cases are those in which the text is read
    cases hinteger : signed64? t.toList with
    | some n =>
      rw [keptText_of_integer hword hinteger, ← String.toList_inj]
      exact (integerText_eq_iff_of_signed? (signed?_of_signed64? hinteger)).mpr
        (h.integer hword n hinteger)
    | none =>
      cases hdouble : Double.ofText? t.toList with
      | some x =>
        rw [keptText_of_double hword hinteger hdouble]
        exact h.double hword hinteger x hdouble
      | none => exact keptText_of_none hword hinteger hdouble

/-- A text with a character that occurs in no number is kept, if it is no truth value and no name of a
number. -/
theorem unchanged_of_not_isNumberChar {t : String} {c : Char} (hword : ¬ IsTruthWord t)
    (hname : ¬ Double.IsName t.toList) (hmem : c ∈ t.toList) (hc : isNumberChar c = false) :
    Unchanged t := by
  refine ⟨fun h => absurd h hword, fun _ n hn => ?_, fun _ _ x hx => ?_⟩
  · have hread := isNumberChar_of_signed? (signed?_of_signed64? hn) c hmem
    rw [hc] at hread
    cases hread
  · have hread := Double.isNumberChar_of_ofText? hx hname c hmem
    rw [hc] at hread
    cases hread

/-- A number with a plus sign or an exponent is not kept. -/
theorem not_unchanged_of_mem {t : String} {c : Char} (hc : c ∈ ['+', 'e', 'E'])
    (hmem : c ∈ t.toList) (hword : ¬ IsTruthWord t)
    (hnumber : (signed64? t.toList).isSome ∨ (Double.ofText? t.toList).isSome) : ¬ Unchanged t := by
  intro h
  -- the character would be in the text that is kept
  rw [← keptText_eq_iff.mpr h] at hmem
  cases hinteger : signed64? t.toList with
  | some n =>
    rw [keptText_of_integer hword hinteger] at hmem
    have hplain : (isDigit c = false ∧ c ≠ '-') ∧ c ≠ '.' := by
      simpa [Double.isPlainChar] using Double.isPlainChar_eq_false hc
    have hdigit := isDigit_of_mem_integerText hmem hplain.1.2
    rw [hplain.1.1] at hdigit
    cases hdigit
  | none =>
    obtain ⟨x, hx⟩ : ∃ x, Double.ofText? t.toList = some x := by
      simpa [hinteger, Option.isSome_iff_exists] using hnumber
    rw [keptText_of_double hword hinteger hx] at hmem
    exact Double.not_mem_text hc x hmem

end RawSetting

/-! ## Layers -/

/-- The variable of a setting. -/
def Setting.variable : Setting → String
  | serverUrl => "TABLINK_SERVER_URL"
  | token => "TABLINK_TOKEN"
  | database => "TABLINK_DATABASE"
  | account => "TABLINK_ACCOUNT_ID"
  | timeoutSecs => "TABLINK_TIMEOUT_SECS"

/-- The settings with another text for one of them. -/
def ClientSettings.withText (c : ClientSettings) (setting : Setting) (t : String) : ClientSettings :=
  match setting with
  | .serverUrl => { c with serverUrl := t }
  | .token => { c with token := some t }
  | .database => { c with database := some t }
  | .account => { c with account := some t }
  | .timeoutSecs => c

namespace SettingLayer

/-- Whether a variable of the environment is one of this library's. -/
def isVariable (pair : String × String) : Bool :=
  (variableName? pair.1).isSome

/-- The layer that gives one setting. -/
def single (setting : Setting) (raw : RawSetting) : SettingLayer := fun other =>
  if other = setting then some raw else none

/-- Only the variables of this library matter. -/
theorem ofEnvironment_eq (environment : List (String × String)) :
    ofEnvironment environment = ofEnvironment (environment.filter isVariable) := by
  unfold ofEnvironment
  rw [List.filterMap_filter]
  congr 2
  funext pair
  obtain ⟨name, t⟩ := pair
  cases h : variableName? name <;> simp [isVariable, h]

/-- One variable sets its own setting. -/
theorem ofEnvironment_variable (setting : Setting) (t : String) :
    ofEnvironment [(setting.variable, t)] = single setting (.ofEnvironment t) := by
  funext other
  cases setting <;> cases other <;> rfl

/-- What the layers give for the settings, if it makes settings. -/
theorem toSettings_eq_ok_iff {layer : SettingLayer} {c : ClientSettings} :
    layer.toSettings = .ok c ↔
      ((layer .serverUrl).getD .unset).text? = some c.serverUrl ∧
      ((layer .token).getD .unset).optional? = some c.token ∧
      ((layer .database).getD .unset).optional? = some c.database ∧
      ((layer .account).getD .unset).optional? = some c.account ∧
      ((layer .timeoutSecs).getD .unset).count? = some c.timeoutSecs := by
  unfold toSettings
  dsimp only
  split
  · rename_i hserverUrl htoken hdatabase haccount htimeoutSecs
    rw [hserverUrl, htoken, hdatabase, haccount, htimeoutSecs]
    obtain ⟨serverUrl, token, database, account, timeoutSecs⟩ := c
    simp
  · rename_i hnone
    constructor
    · intro h
      cases h
    · rintro ⟨hserverUrl, htoken, hdatabase, haccount, htimeoutSecs⟩
      exact (hnone _ _ _ _ _ hserverUrl htoken hdatabase haccount htimeoutSecs).elim

/-- For a text setting a value may be replaced by its text. -/
theorem toSettings_single_onTopOf {setting : Setting} (hsetting : setting ≠ .timeoutSecs)
    {raw : RawSetting} {t : String} (h : raw.text? = some t) (lower : SettingLayer) :
    ((single setting raw).onTopOf lower).toSettings =
      ((single setting (.text t)).onTopOf lower).toSettings := by
  have htext : raw.text? = (RawSetting.text t).text? := h
  have hoptional : raw.optional? = (RawSetting.text t).optional? := RawSetting.optional?_of_text? h
  cases setting with
  | timeoutSecs => exact absurd rfl hsetting
  | _ => simp [toSettings, onTopOf, single, htext, hoptional]

/-- A text on top of settings replaces the one setting. -/
theorem toSettings_text_onTopOf {setting : Setting} (hsetting : setting ≠ .timeoutSecs) (t : String)
    {lower : SettingLayer} {c : ClientSettings} (h : lower.toSettings = .ok c) :
    ((single setting (.text t)).onTopOf lower).toSettings = .ok (c.withText setting t) := by
  rw [toSettings_eq_ok_iff] at h ⊢
  obtain ⟨hserverUrl, htoken, hdatabase, haccount, htimeoutSecs⟩ := h
  cases setting with
  | timeoutSecs => exact absurd rfl hsetting
  | _ => simp_all [onTopOf, single, ClientSettings.withText, RawSetting.text?, RawSetting.optional?]

end SettingLayer

namespace ClientSettings

open SettingLayer RawSetting

variable {setting : Setting} {environment : List (String × String)} {t : String}

/-- A load puts the environment on top of the file, and both on top of the defaults. -/
theorem load_eq {file : SettingsFile} {document : SettingLayer}
    (hfile : fileLayer file = .ok document) (environment : List (String × String)) :
    load file environment = ((SettingLayer.ofEnvironment environment).onTopOf
      (document.onTopOf defaults)).toSettings := by
  rw [load, hfile]
  rfl

/-- A variable gives its setting the text that is kept. -/
theorem load_eq_of_variable (hsetting : setting ≠ .timeoutSecs)
    (honly : environment.filter isVariable = [(setting.variable, t)]) {file : SettingsFile}
    {document : SettingLayer} (hfile : fileLayer file = .ok document) :
    load file environment =
      ((single setting (.text (keptText t))).onTopOf (document.onTopOf defaults)).toSettings := by
  rw [load_eq hfile, ofEnvironment_eq, honly, ofEnvironment_variable]
  exact toSettings_single_onTopOf hsetting (text?_ofEnvironment t) _

/-- Settings that are loaded without the environment are loaded with a variable besides, which
replaces one of them. -/
theorem load_eq_withText (hsetting : setting ≠ .timeoutSecs)
    (honly : environment.filter isVariable = [(setting.variable, t)]) {file : SettingsFile}
    {c : ClientSettings} (h : load file [] = .ok c) :
    load file environment = .ok (c.withText setting (keptText t)) := by
  cases hfile : fileLayer file with
  | error e =>
    rw [load, hfile] at h
    cases h
  | ok document =>
    rw [load_eq hfile] at h
    rw [load_eq_of_variable hsetting honly hfile]
    exact toSettings_text_onTopOf hsetting _ h

/-- A text setting whose variable is the only one of this library in the environment:

* the variable is a layer on top of the document and the defaults, and gives a text;
* every setting is loaded as without the variable, but the one has this text;
* the text is the variable's if that is written as it is read, and in no other case;
* so a variable's text is kept if it has a character that occurs in no number, and is no truth value
  and no name of a number, and it is not kept if it is a number with a plus sign or an exponent. -/
theorem load_of_variable (hsetting : setting ≠ .timeoutSecs)
    (honly : environment.filter isVariable = [(setting.variable, t)]) (file : SettingsFile) :
    (∀ document, fileLayer file = .ok document → load file environment =
      ((single setting (.text (keptText t))).onTopOf (document.onTopOf defaults)).toSettings) ∧
    (∀ c, load file [] = .ok c → load file environment = .ok (c.withText setting (keptText t))) ∧
    (keptText t = t ↔ Unchanged t) ∧
    (¬ IsTruthWord t → ¬ Double.IsName t.toList → (∃ c ∈ t.toList, isNumberChar c = false) →
      keptText t = t) ∧
    (¬ IsTruthWord t → (signed64? t.toList).isSome ∨ (Double.ofText? t.toList).isSome →
      (∃ c ∈ ['+', 'e', 'E'], c ∈ t.toList) → keptText t ≠ t) := by
  refine ⟨fun _ hfile => load_eq_of_variable hsetting honly hfile,
    fun _ h => load_eq_withText hsetting honly h, keptText_eq_iff, ?_, ?_⟩
  · rintro hword hname ⟨c, hmem, hc⟩
    exact keptText_eq_iff.mpr (unchanged_of_not_isNumberChar hword hname hmem hc)
  · rintro hword hnumber ⟨c, hc, hmem⟩ hkept
    exact not_unchanged_of_mem hc hmem hword hnumber (keptText_eq_iff.mp hkept)

/-- A token in the environment is on top of a document with another one and a database. -/
theorem token_load_of_variable :
    let file : SettingsFile := .text "token = 'old'\ndatabase = 'films'\n"
    let environment := [("PATH", "/bin"), ("TABLINK_TOKEN", "00e-7f")]
    environment.filter isVariable = [(Setting.token.variable, "00e-7f")] ∧
      load file environment =
        .ok { default with token := some "00e-7f", database := some "films" } := by
  intro file environment
  have honly : environment.filter isVariable = [(Setting.token.variable, "00e-7f")] := by decide
  have hfile : load file [] =
      .ok { default with token := some "old", database := some "films" } := by
    have hread : (load file []).toOption =
        some { default with token := some "old", database := some "films" } := by decide +kernel
    cases h : load file [] with
    | error e =>
      rw [h] at hread
      cases hread
    | ok c =>
      rw [h] at hread
      rw [Option.some.inj hread]
  obtain ⟨-, hload, -, hkept, -⟩ := load_of_variable (by decide) honly file
  refine ⟨honly, ?_⟩
  rw [hload _ hfile, hkept (by decide) (by decide) ⟨'f', by decide, by decide⟩]
  rfl

/-- A token that is a numeral with a zero in front loses the zero. -/
theorem leading_zero_lost :
    load .notGiven [("TABLINK_TOKEN", "0123")] = .ok { default with token := some "123" } ∧
      load .notGiven [("TABLINK_TOKEN", "0123")] ≠ .ok { default with token := some "0123" } := by
  have hdefault : load .notGiven [] = .ok default := by
    rw [load_eq rfl, toSettings_eq_ok_iff]
    exact ⟨rfl, rfl, rfl, rfl, rfl⟩
  have honly : [("TABLINK_TOKEN", "0123")].filter isVariable =
      [(Setting.token.variable, "0123")] := by decide
  have hkept : keptText "0123" = "123" := by decide +kernel
  have hload : load .notGiven [("TABLINK_TOKEN", "0123")] =
      .ok { default with token := some "123" } := by
    rw [load_eq_withText (by decide) honly hdefault, hkept]
    rfl
  refine ⟨hload, ?_⟩
  rw [hload]
  intro h
  have htoken := congrArg ClientSettings.token (Except.ok.inj h)
  revert htoken
  decide

end ClientSettings

end RemoteTable
