import RemoteTable.CommandLine.Basic

/-!
# Reading arguments

Arguments are read from left to right in two parts: what stands before the command's name, and what
stands behind it. An argument is an option, the separator `--` behind which everything is an
operand, or an operand. An option is named by a word behind two dashes or a letter behind one; its
value is attached to it or is the next argument, which then must not look like an option. An option
is given once in a part unless it is a list. The options of the program count in both parts, and
the later part wins.

A letter may be followed by its value at once. No letter stands for an option without a value
except those that end the reading, so letters are never combined.
-/

namespace RemoteTable

/-! ## Options -/

/-- The options by name. -/
inductive OptionName where
  /-- The document of settings. -/
  | config
  /-- The address of the server. -/
  | serverUrl
  /-- The token of the caller. -/
  | token
  /-- The database. -/
  | database
  /-- The account of the caller. -/
  | account
  /-- The directory of the log files. -/
  | logDirectory
  /-- How much is logged. -/
  | logLevel
  /-- Whether the log is without colours. -/
  | noColor
  /-- A record. -/
  | id
  /-- A filter. -/
  | filter
  /-- Whether to delete without a question. -/
  | force
  /-- Whether only to count. -/
  | count
  /-- How the program is used. -/
  | help
  /-- The version. -/
  | version
deriving DecidableEq, Repr

/-- What an option is followed by. -/
inductive OptionShape where
  /-- Nothing. -/
  | flag
  /-- A text. -/
  | text
  /-- A text that is not empty, since it names a place. -/
  | place
  /-- A text; the option may be repeated. -/
  | list
  /-- Nothing, and nothing behind it is read. -/
  | final (refusal : Refusal)
deriving DecidableEq, Repr

namespace OptionName

/-- The word that names an option. -/
def word : OptionName → String
  | config => "config"
  | serverUrl => "server-url"
  | token => "token"
  | database => "database"
  | account => "account-id"
  | logDirectory => "log-dir"
  | logLevel => "log-level"
  | noColor => "no-color"
  | id => "id"
  | filter => "filter"
  | force => "force"
  | count => "count"
  | help => "help"
  | version => "version"

/-- The letter that names an option, if there is one. -/
def letter? : OptionName → Option Char
  | config => some 'c'
  | database => some 'd'
  | filter => some 'f'
  | help => some 'h'
  | version => some 'V'
  | _ => none

/-- What an option is followed by. -/
def shape : OptionName → OptionShape
  | config | logDirectory => .place
  | serverUrl | token | database | account | logLevel | filter => .text
  | id => .list
  | noColor | force | count => .flag
  | help => .final .help
  | version => .final .version

/-- The options that count before and behind the name of a command. -/
def common : List OptionName :=
  [config, serverUrl, token, database, account, logDirectory, logLevel, noColor, help]

end OptionName

/-! ## Forms of arguments -/

/-- An argument by its form. -/
inductive ArgumentForm where
  /-- Everything behind is an operand. -/
  | separator
  /-- An option, with the text attached to it. -/
  | option (name : OptionName) (attached : Option String)
  /-- An option that is not known. -/
  | unknown
  /-- An operand. -/
  | operand
deriving DecidableEq, Repr

namespace ArgumentForm

/-- The form of an option named by a word, with the text behind an equals sign. -/
def ofWord (known : List OptionName) (body : List Char) : ArgumentForm :=
  let word := String.ofList (body.takeWhile (· ≠ '='))
  let attached := match body.dropWhile (· ≠ '=') with
    | [] => none
    | _ :: text => some (String.ofList text)
  match known.find? fun name => name.word = word with
  | some name => option name attached
  | none => unknown

/-- The form of an option named by a letter, with the text behind it; an equals sign in between
does not count. -/
def ofLetter (known : List OptionName) (letter : Char) (more : List Char) : ArgumentForm :=
  match known.find? fun name => name.letter? = some letter with
  | none => unknown
  | some name =>
    match name.shape, more with
    | .final _, _ | _, [] => option name none
    | _, '=' :: text => option name (some (String.ofList text))
    | _, text => option name (some (String.ofList text))

/-- The form of an argument; a single dash is an operand. -/
def of (known : List OptionName) (argument : String) : ArgumentForm :=
  match argument.toList with
  | ['-', '-'] => separator
  | '-' :: '-' :: body => ofWord known body
  | '-' :: letter :: more => ofLetter known letter more
  | _ => operand

end ArgumentForm

/-! ## Parts of a command line -/

/-- What a part of a command line gives, in order. -/
structure Given where
  /-- The options with their values; a flag has the empty text. -/
  options : List (OptionName × String)
  /-- The operands. -/
  operands : List String
deriving DecidableEq, Repr

namespace Given

/-- Nothing yet. -/
def empty : Given :=
  ⟨[], []⟩

/-- All values of an option. -/
def values (g : Given) (name : OptionName) : List String :=
  (g.options.filter fun given => given.1 = name).map Prod.snd

/-- The value of an option that is given at most once. -/
def value? (g : Given) (name : OptionName) : Option String :=
  (g.values name).head?

/-- Whether an option is given. -/
def has (g : Given) (name : OptionName) : Bool :=
  (g.value? name).isSome

/-- Takes one more option in, unless it may not be given again or needs a better value. -/
def addOption (g : Given) (name : OptionName) (value : String) : Except Refusal Given :=
  if (name.shape ≠ .list ∧ g.has name) ∨ (name.shape = .place ∧ value = "") then .error .usage
  else .ok { g with options := g.options ++ [(name, value)] }

/-- Takes one more operand in. -/
def addOperand (g : Given) (operand : String) : Given :=
  { g with operands := g.operands ++ [operand] }

/-- Reads a part of a command line. The part in front of a command ends at the first operand, which
is left over with what stands behind it; the part behind it goes on to the end. -/
def read (known : List OptionName) (toEnd : Bool) (g : Given) :
    List String → Except Refusal (Given × List String)
  | [] => .ok (g, [])
  | argument :: rest =>
    match ArgumentForm.of known argument with
    | .unknown => .error .usage
    | .operand =>
      if toEnd then read known toEnd (g.addOperand argument) rest else .ok (g, argument :: rest)
    | .separator =>
      if toEnd then .ok ({ g with operands := g.operands ++ rest }, []) else .error .usage
    | .option name attached =>
      match name.shape, attached, rest with
      | .final refusal, none, _ => .error refusal
      | .final _, some _, _ | .flag, some _, _ => .error .usage
      | .flag, none, rest => do read known toEnd (← g.addOption name "") rest
      | _, some value, rest => do read known toEnd (← g.addOption name value) rest
      | _, none, value :: rest =>
        match ArgumentForm.of known value with
        | .operand => do read known toEnd (← g.addOption name value) rest
        | _ => .error .usage
      | _, none, [] => .error .usage

end Given

/-! ## Commands -/

/-- The commands by name. -/
inductive Verb where
  /-- Lists identifiers. -/
  | find
  /-- Shows fields. -/
  | get
  /-- Writes fields. -/
  | set
  /-- Deletes records. -/
  | delete
  /-- Shows history. -/
  | history
  /-- Lists pipelines. -/
  | pipelines
  /-- Shows the version. -/
  | version
deriving DecidableEq, Repr

namespace Verb

/-- All commands. -/
def all : List Verb :=
  [find, get, set, delete, history, pipelines, version]

/-- The word that names a command. -/
def word : Verb → String
  | find => "find"
  | get => "get"
  | set => "set"
  | delete => "delete"
  | history => "history"
  | pipelines => "pipelines"
  | version => "version"

/-- The command that a word names, letter by letter. -/
def ofWord? (word : String) : Option Verb :=
  all.find? fun verb => verb.word = word

/-- The options of a command besides the common ones. -/
def options : Verb → List OptionName
  | find => [.filter]
  | get | set => [.id]
  | delete => [.id, .force]
  | history => [.id, .filter, .count]
  | pipelines | version => []

/-- The command that the part behind its name describes, if nothing is missing and nothing is too
much. -/
def command? (verb : Verb) (g : Given) : Option Command :=
  let ids := g.values .id
  let target? (table : String) : Option Target := if ids.isEmpty then none else some ⟨table, ids⟩
  match verb, g.operands with
  | find, [table] => (g.value? .filter).map fun filter => .task (.find table filter)
  | get, table :: field :: fields =>
    (target? table).map fun target => .task (.get target (field :: fields))
  | set, table :: assignment :: assignments =>
    (target? table).map fun target => .task (.set target (assignment :: assignments))
  | delete, [table] => (target? table).map fun target => .task (.delete target (g.has .force))
  | history, [table] =>
    (target? table).map fun target =>
      .task (.history target (g.value? .filter) (g.has .count))
  | pipelines, [table] => some (.task (.pipelines table))
  | version, [] => some .version
  | _, _ => none

end Verb

/-! ## Whole command lines -/

namespace CommandLine

/-- How an option is written. -/
def optionUsage (name : OptionName) : String :=
  let value := match name.shape with
    | .flag | .final _ => ""
    | .text | .place | .list => " <" ++ name.word ++ ">"
  let letter := name.letter?.elim "" fun c => "-" ++ String.singleton c ++ ", "
  letter ++ "--" ++ name.word ++ value

/-- How the program is used. -/
def usageText : String :=
  let verbs := Verb.all.map fun verb =>
    "  " ++ " ".intercalate (verb.word :: verb.options.map fun name => "[" ++ optionUsage name ++ "]")
  let options := (OptionName.common ++ [OptionName.version]).map fun name => "  " ++ optionUsage name
  "\n".intercalate
    (["Usage: " ++ programName ++ " [options] <command> [arguments]", "", "Commands:"] ++ verbs ++
      ["", "Options:"] ++ options ++ [""])

/-- The word that asks how the program or one of its commands is used. -/
def helpWord : String := "help"

/-- How a question for help with the given words ends. -/
def helpOn : List String → Refusal
  | [] => .help
  | [word] => if word = helpWord ∨ (Verb.ofWord? word).isSome then .help else .usage
  | _ => .usage

/-- The command line with a command and the parts in front of and behind its name. -/
def ofParts (command : Command) (before behind : Given) : CommandLine :=
  let value (name : OptionName) : Option String := (behind.value? name).or (before.value? name)
  { command
    settingsPath := value .config
    serverUrl := value .serverUrl
    token := value .token
    database := value .database
    account := value .account
    logDirectory := value .logDirectory
    logLevel := value .logLevel
    noColor := (value .noColor).isSome }

/-- Reads the part behind the name of a command. -/
def ofVerb (verb : Verb) (before : Given) (arguments : List String) :
    Except Refusal CommandLine := do
  let (behind, _) ← Given.empty.read (verb.options ++ OptionName.common) true arguments
  match verb.command? behind with
  | some command => pure (ofParts command before behind)
  | none => throw .usage

/-- Reads a command line. -/
def ofArguments (arguments : List String) : Except Refusal CommandLine := do
  let (before, rest) ← Given.empty.read (OptionName.common ++ [.version]) false arguments
  match rest with
  | [] => throw .usage
  | word :: rest =>
    if word = helpWord then throw (helpOn rest)
    else match Verb.ofWord? word with
      | some verb => ofVerb verb before rest
      | none => throw .usage

end CommandLine

end RemoteTable
