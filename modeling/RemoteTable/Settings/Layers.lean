import RemoteTable.Settings.Basic
import RemoteTable.Toml.Reader

/-!
# Layers of settings

Settings come from the defaults, a document and the environment, and a later layer replaces an
earlier one setting by setting. Names count in any letter case. What a layer gives may be of another
kind than the setting: numbers and truth values stand for their texts, and for the count of seconds
texts and truth values stand for numbers.
-/

namespace RemoteTable

/-- The settings by name. -/
inductive Setting where
  /-- The address of the server. -/
  | serverUrl
  /-- The token of the caller. -/
  | token
  /-- The database. -/
  | database
  /-- The account of the caller. -/
  | account
  /-- The seconds after which an answer is no longer waited for. -/
  | timeoutSecs
deriving DecidableEq, Repr

/-- The name of a setting in documents and, behind a common beginning, in the environment. -/
def Setting.name : Setting → String
  | serverUrl => "server_url"
  | token => "token"
  | database => "database"
  | account => "account_id"
  | timeoutSecs => "timeout_secs"

/-- What a layer gives for a setting. -/
inductive RawSetting where
  /-- Nothing, on purpose. -/
  | unset
  /-- A truth value. -/
  | boolean (b : Bool)
  /-- A whole number. -/
  | integer (n : Int)
  /-- Another number. -/
  | real (x : Double)
  /-- A text. -/
  | text (s : String)
  /-- A sequence or a table. -/
  | structured
deriving DecidableEq, Repr

namespace RawSetting

/-! ## Conversions -/

/-- The text that a scalar stands for. -/
def text? : RawSetting → Option String
  | boolean b => some (if b then "true" else "false")
  | integer n => some (integerText n)
  | real x => some x.text
  | text s => some s
  | unset | structured => none

/-- The text of a setting that may be unset. -/
def optional? : RawSetting → Option (Option String)
  | unset => some none
  | raw => raw.text?.map some

/-- The letter in lower case; of the letters outside ASCII only the Kelvin sign has a lower case
inside. -/
def lowerLetter (c : Char) : Char :=
  if c = '\u212A' then 'k' else c.toLower

/-- The name in lower case. -/
def lowerName (name : List Char) : String :=
  String.ofList (name.map lowerLetter)

/-- The count that a text stands for: a numeral, or a word that means one or zero. -/
def countOfText? (s : String) : Option Nat :=
  let word := lowerName s.toList
  if word = "true" ∨ word = "on" ∨ word = "yes" then some 1
  else if word = "false" ∨ word = "off" ∨ word = "no" then some 0
  else unsigned64? s.toList

/-- The count that a scalar stands for. -/
def count? : RawSetting → Option Nat
  | boolean b => some (if b then 1 else 0)
  | integer n => if 0 ≤ n then some n.toNat else none
  | real x => some x.toCount
  | text s => countOfText? s
  | unset | structured => none

/-- What a text of the environment gives: a truth value in any letter case, a whole number of 64
bits, another number, or else itself. -/
def ofEnvironment (s : String) : RawSetting :=
  let word := lowerName s.toList
  if word = "true" then boolean true
  else if word = "false" then boolean false
  else match signed64? s.toList with
    | some n => integer n
    | none =>
      match Double.ofText? s.toList with
      | some x => real x
      | none => text s

/-- What a value of a document gives; a table without members gives nothing. -/
def ofToml : Toml.Value → Option RawSetting
  | .string s => some (text s)
  | .integer n => some (integer n)
  | .float x => some (real x)
  | .boolean b => some (boolean b)
  | .moment s => some (text s)
  | .array _ => some structured
  | .table [] => none
  | .table (_ :: _) => some structured

end RawSetting

/-! ## Names of settings -/

namespace SettingPath

/-- Whether a character may stand in a part of a path. -/
def isPartChar (c : Char) : Bool :=
  isDigit c || ('a' ≤ c && c ≤ 'z') || ('A' ≤ c && c ≤ 'Z') || c == ' ' || c == '_' || c == '-'

/-- Whether a character may stand around an index. -/
def isGap (c : Char) : Bool :=
  c == ' ' || c == '\t' || c == '\n' || c == '\r'

/-- The text behind an index and its closing bracket. -/
def behindIndex? (cs : List Char) : Option (List Char) :=
  let body := cs.dropWhile isGap
  let digits := match body with
    | '-' :: more | '+' :: more => more
    | more => more
  let sign := body.take (body.length - digits.length)
  match signed64? (sign ++ digits.takeWhile isDigit), (digits.dropWhile isDigit).dropWhile isGap with
  | some _, ']' :: rest => some rest
  | _, _ => none

/-- Whether a text is a sequence of further parts, each a point with a name or an index in brackets.
`fuel` bounds their number. -/
def isTail : Nat → List Char → Bool
  | _, [] => true
  | 0, _ => false
  | fuel + 1, '.' :: cs =>
    match cs.takeWhile isPartChar with
    | [] => false
    | _ => isTail fuel (cs.dropWhile isPartChar)
  | fuel + 1, '[' :: cs =>
    match behindIndex? cs with
    | some rest => isTail fuel rest
    | none => false
  | _, _ => false

/-- The part of a name that says which setting is meant, and whether more parts lead into it. A name
that is no path is meant as it is. -/
def split (name : List Char) : List Char × Bool :=
  let head := name.takeWhile isPartChar
  let tail := name.dropWhile isPartChar
  if !head.isEmpty && isTail tail.length tail then (head, !tail.isEmpty) else (name, false)

end SettingPath

/-! ## Layers -/

/-- What a source of settings gives for each of them. -/
abbrev SettingLayer := Setting → Option RawSetting

namespace SettingLayer

/-- What a single named value gives for a setting: a value inside a setting makes it a table or a
sequence. -/
def ofNamed (name : List Char) (raw : Option RawSetting) : SettingLayer := fun setting =>
  let (head, inside) := SettingPath.split name
  if RawSetting.lowerName head = setting.name then
    if inside then some .structured else raw
  else none

/-- The second layer on top of the first. -/
def onTopOf (upper lower : SettingLayer) : SettingLayer := fun setting =>
  (upper setting).or (lower setting)

/-- Named values, of which the last for a setting counts. -/
def ofNamedValues (pairs : List (List Char × Option RawSetting)) : SettingLayer :=
  pairs.foldl (fun lower (name, raw) => (ofNamed name raw).onTopOf lower) fun _ => none

/-- The defaults. -/
def defaults : SettingLayer
  | .serverUrl => some (.text ClientSettings.default.serverUrl)
  | .timeoutSecs => some (.integer ClientSettings.default.timeoutSecs)
  | .token | .database | .account => some .unset

/-- The settings that a document gives. -/
def ofDocument (members : List (String × Toml.Value)) : SettingLayer :=
  ofNamedValues (members.map fun (name, v) => (name.toList, RawSetting.ofToml v))

/-- The beginning of the names that the environment has for settings, in lower case. -/
def environmentPrefix : String := "tablink_"

/-- The part of a variable's name behind the common beginning, if it has it in any letter case. -/
def variableName? (name : String) : Option (List Char) :=
  let beginning := environmentPrefix.length
  if RawSetting.lowerName (name.toList.take beginning) = environmentPrefix then
    some (name.toList.drop beginning)
  else none

/-- The settings that the variables of an environment give. -/
def ofEnvironment (environment : List (String × String)) : SettingLayer :=
  ofNamedValues (environment.filterMap fun (name, text) =>
    (variableName? name).map fun rest => (rest, some (RawSetting.ofEnvironment text)))

/-- The settings of a layer that has a value of the right kind for each of them. -/
def toSettings (layer : SettingLayer) : Except Error ClientSettings :=
  let raw (setting : Setting) : RawSetting := (layer setting).getD .unset
  match (raw .serverUrl).text?, (raw .token).optional?, (raw .database).optional?,
      (raw .account).optional?, (raw .timeoutSecs).count? with
  | some serverUrl, some token, some database, some account, some timeoutSecs =>
    .ok ⟨serverUrl, token, database, account, timeoutSecs⟩
  | _, _, _, _, _ => .error .configuration

end SettingLayer

/-- The document that settings are read from. -/
inductive SettingsFile where
  /-- No document is asked for. -/
  | notGiven
  /-- The document that is asked for does not exist. -/
  | missing
  /-- The text of the document. -/
  | text (content : String)
deriving DecidableEq, Repr

namespace ClientSettings

/-- The settings of a document, if it can be read. -/
def fileLayer : SettingsFile → Except Error SettingLayer
  | .notGiven => .ok fun _ => none
  | .missing => .error .configuration
  | .text content =>
    match Toml.ofText? content with
    | some members => .ok (SettingLayer.ofDocument members)
    | none => .error .configuration

/-- The settings of a document and an environment on top of the defaults. -/
def load (file : SettingsFile) (environment : List (String × String)) :
    Except Error ClientSettings := do
  let document ← fileLayer file
  ((SettingLayer.ofEnvironment environment).onTopOf (document.onTopOf SettingLayer.defaults)).toSettings

end ClientSettings

end RemoteTable
